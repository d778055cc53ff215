import Dyad.Native.Compiler
import Dyad.Proofs.Native.X64.Equivalence

/-!
What a compiler and its routines count. A workshop is a compiler together with all routines it has
returned; it serves requests to compile, to compile and run at once, and to invoke one of the
routines again, in any order and whatever becomes of them. `Kept` says what all counters are after
a history of requests and replies, in terms of that history alone: the compiler's own, and those
that each routine has carried since it was made.
-/

namespace Dyad

/-- Every word is an instruction. -/
def Program.Decodable (p : Program) : Prop :=
  ∀ w ∈ p.words.toList, (Instruction.decode w).isOk = true

instance (p : Program) : Decidable p.Decodable :=
  List.decidableBAll (fun w => (Instruction.decode w).isOk = true) p.words.toList

theorem Program.decodable_iff {p : Program} : p.Decodable ↔ ∃ code, Decodes p.words code := by
  have isOk_iff (x : Except DecodeError Instruction) : x.isOk = true ↔ ∃ i, x = .ok i := by
    cases x with
    | error e => exact ⟨nofun, nofun⟩
    | ok i => exact ⟨fun _ => ⟨i, rfl⟩, fun _ => rfl⟩
  rw [Decodes.exists_iff]
  simp only [Decodable, isOk_iff]

/-! ### Compilation -/

namespace Compiler

variable {c : Compiler} {p : Program} {code : List Instruction}

theorem decodeAll_go_eq_ok_iff {ws : List UInt32} {pc : Nat} {acc : List Instruction} :
    decodeAll.go pc acc ws = .ok code ↔
      ∃ rest, ws.map Instruction.decode = rest.map .ok ∧ code = acc.reverse ++ rest := by
  induction ws generalizing pc acc with
  | nil =>
    rw [decodeAll.go]
    constructor
    · intro h
      cases h
      exact ⟨[], rfl, (List.append_nil _).symm⟩
    · rintro ⟨rest, hrest, rfl⟩
      cases List.map_eq_nil_iff.mp hrest.symm
      rw [List.append_nil]
  | cons w ws ih =>
    rw [decodeAll.go, List.map_cons]
    cases hw : Instruction.decode w with
    | error e =>
      refine ⟨nofun, ?_⟩
      rintro ⟨_ | ⟨i, rest⟩, h, -⟩ <;> cases h
    | ok i =>
      rw [ih]
      constructor
      · rintro ⟨rest, hrest, rfl⟩
        exact ⟨i :: rest, by rw [hrest, List.map_cons], by simp⟩
      · rintro ⟨_ | ⟨j, rest⟩, h, rfl⟩
        · cases h
        · obtain ⟨hj, hrest⟩ := List.cons.inj h
          cases hj
          exact ⟨rest, hrest, by simp⟩

theorem decodeAll_eq_ok_iff {words : Array UInt32} :
    decodeAll words = .ok code ↔ Decodes words code := by
  rw [decodeAll, decodeAll_go_eq_ok_iff, Decodes]
  constructor
  · rintro ⟨rest, hrest, rfl⟩
    exact hrest
  · intro h
    exact ⟨code, h, rfl⟩

/-- The counters after compiling `code`. -/
def tally (c : Compiler) (code : List Instruction) : CompileStats :=
  { c.stats with
    compileCount := c.stats.compileCount + 1
    codeSize := (X64.codegen.assemble Native.runLayout c.cachedCells code).length
    instructionCount := code.length }

/-- The routine for `code`. -/
def routineFor (c : Compiler) (code : List Instruction) : Routine where
  code := X64.codegen.assemble Native.runLayout c.cachedCells code
  cachedCells := c.cachedCells
  stats := { c.tally code with execCount := 0 }

theorem routineFor_compiled (c : Compiler) (code : List Instruction) :
    (c.routineFor code).Compiled Native.runLayout c.cachedCells code :=
  ⟨rfl, rfl⟩

theorem compile_of_decodes (c : Compiler) (h : Decodes p.words code) :
    c.compile p = .ok (c.routineFor code, { c with stats := c.tally code }) := by
  rw [compile, decodeAll_eq_ok_iff.mpr h]
  rfl

theorem compile_of_not_decodable (c : Compiler) (h : ¬ p.Decodable) :
    ∃ cause, c.compile p = .error cause := by
  cases hd : decodeAll p.words with
  | ok code => exact absurd (Program.decodable_iff.mpr ⟨code, decodeAll_eq_ok_iff.mp hd⟩) h
  | error cause =>
    refine ⟨cause, ?_⟩
    rw [compile, hd]
    rfl

/-- Compiling yields the routine for the instructions that the words stand for. -/
theorem routine_of_compile {c' : Compiler} {r : Routine} (h : c.compile p = .ok (r, c')) :
    ∃ code, Decodes p.words code ∧ r = c.routineFor code := by
  by_cases hp : p.Decodable
  · obtain ⟨code, hd⟩ := Program.decodable_iff.mp hp
    rw [c.compile_of_decodes hd] at h
    cases h
    exact ⟨code, hd, rfl⟩
  · obtain ⟨cause, hc⟩ := c.compile_of_not_decodable hp
    rw [hc] at h
    cases h

end Compiler

/-- An invocation counts, and changes no other counter. -/
theorem Routine.stats_of_invoke {r r' : Routine} {fuel : Nat} {sink : Sink} {report : Report}
    (h : r.invoke fuel sink = some (report, r')) :
    r'.stats = { r.stats with execCount := r.stats.execCount + 1 } := by
  rw [invoke, invokeOn, invokeAt] at h
  split at h
  · cases h
    rfl
  · cases h

/-! ### Requests -/

/-- Something asked of a compiler, or of a routine that it has returned. -/
inductive Request where
  | compile (p : Program)
  | compileAndExecute (p : Program) (fuel : Nat) (sink : Sink)
  /-- The routines that were returned are numbered from zero on. -/
  | invoke (j fuel : Nat) (sink : Sink)

inductive Reply where
  /-- A new routine. -/
  | returned
  /-- No routine, since the program was not compiled or its run has failed. -/
  | refused (cause : ExecutionError)
  | invoked (fault : Option Fault)

namespace Request

/-- The program to be compiled. -/
def program? : Request → Option Program
  | compile p | compileAndExecute p _ _ => some p
  | invoke _ _ _ => none

/-- The program to be compiled, if it can be. -/
def compiled? (q : Request) : Option Program := q.program?.filter (·.Decodable)

end Request

structure Record where
  request : Request
  reply : Reply

namespace Record

/-- A routine was returned. -/
def returns (e : Record) : Bool :=
  match e.reply with
  | .returned => true
  | _ => false

/-- A program was compiled and run, and its routine returned. -/
def executes (e : Record) : Bool :=
  match e.request with
  | .compileAndExecute _ _ _ => e.returns
  | _ => false

/-- The `j`-th routine was invoked. -/
def invokes (j : Nat) (e : Record) : Bool :=
  match e.request with
  | .invoke i _ _ => i = j
  | _ => false

@[simp] theorem invokes_invoke (j i fuel : Nat) (sink : Sink) (reply : Reply) :
    invokes j ⟨.invoke i fuel sink, reply⟩ = decide (i = j) := rfl

end Record

/-- A compiler, and the routines it has returned. -/
structure Workshop where
  compiler : Compiler
  routines : List Routine := []

namespace Workshop

/-- Serves a request. No answer means that there is no such routine, or that a run has not ended
by then. -/
def serve (w : Workshop) : Request → Option (Reply × Workshop)
  | .compile p =>
    match w.compiler.compile p with
    | .error cause => some (.refused (.codegen cause), w)
    | .ok (r, c) => some (.returned, ⟨c, w.routines ++ [r]⟩)
  | .compileAndExecute p fuel sink =>
    match w.compiler.compileAndExecute p fuel sink with
    | none => none
    | some ⟨.error cause, c, _, _⟩ => some (.refused cause, ⟨c, w.routines⟩)
    | some ⟨.ok r, c, _, _⟩ => some (.returned, ⟨c, w.routines ++ [r]⟩)
  | .invoke j fuel sink =>
    match w.routines[j]? with
    | none => none
    | some r =>
      match r.invoke fuel sink with
      | none => none
      | some (report, r) => some (.invoked report.fault, { w with routines := w.routines.set j r })

/-- Serves requests one after the other, with a record of each. -/
def serveAll (w : Workshop) : List Request → Option (List Record × Workshop)
  | [] => some ([], w)
  | q :: qs =>
    match w.serve q with
    | none => none
    | some (reply, w) => (w.serveAll qs).map fun (log, w) => (⟨q, reply⟩ :: log, w)

theorem serve_compile (w : Workshop) {p : Program} {code : List Instruction}
    (hd : Decodes p.words code) :
    w.serve (.compile p) = some (.returned,
      ⟨{ w.compiler with stats := w.compiler.tally code },
        w.routines ++ [w.compiler.routineFor code]⟩) := by
  rw [serve, w.compiler.compile_of_decodes hd]

theorem serve_compileAndExecute (w : Workshop) {p : Program} {code : List Instruction}
    (hd : Decodes p.words code) {fuel : Nat} {sink : Sink} {r : Routine} {report : Routine.Report}
    (hr : (w.compiler.routineFor code).invoke fuel sink = some (report, r)) :
    w.serve (.compileAndExecute p fuel sink) = some
      (match report.fault with
      | none => (.returned,
        ⟨{ w.compiler with stats :=
            { w.compiler.tally code with execCount := w.compiler.stats.execCount + 1 } },
          w.routines ++ [r]⟩)
      | some cause => (.refused (.fault cause),
        ⟨{ w.compiler with stats := w.compiler.tally code }, w.routines⟩)) := by
  rw [serve, Compiler.compileAndExecute, w.compiler.compile_of_decodes hd]
  simp only [hr]
  cases report.fault <;> rfl

/-- A request to compile what cannot be compiled is refused, and nothing changes. -/
theorem serve_of_not_decodable (w : Workshop) {q : Request} {p : Program}
    (hq : q.program? = some p) (hp : ¬ p.Decodable) :
    ∃ cause, w.serve q = some (.refused (.codegen cause), w) := by
  obtain ⟨cause, hc⟩ := w.compiler.compile_of_not_decodable hp
  refine ⟨cause, ?_⟩
  cases q with
  | compile =>
    cases hq
    rw [serve, hc]
  | compileAndExecute =>
    cases hq
    rw [serve, Compiler.compileAndExecute, hc]
  | invoke => cases hq

theorem serve_invoke (w : Workshop) {j fuel : Nat} {sink : Sink} {r r' : Routine}
    {report : Routine.Report} (hj : w.routines[j]? = some r)
    (hr : r.invoke fuel sink = some (report, r')) :
    w.serve (.invoke j fuel sink) =
      some (.invoked report.fault, { w with routines := w.routines.set j r' }) := by
  simp only [serve, hj, hr]

/-- All that serving a request can do. -/
inductive Served (w : Workshop) (e : Record) : Workshop → Prop where
  /-- The program is not compiled. -/
  | refused {p : Program} : e.request.program? = some p → ¬ p.Decodable → e.returns = false →
    e.executes = false → Served w e w
  /-- It is compiled, and its routine returned unless its first run failed. -/
  | made {p : Program} {code : List Instruction} {m : Option Routine} :
    e.request.program? = some p → Decodes p.words code → e.returns = m.isSome →
    (∀ r ∈ m, r.stats =
      { w.compiler.tally code with execCount := if e.executes then 1 else 0 }) →
    Served w e
      ⟨{ w.compiler with stats :=
          { w.compiler.tally code with
            execCount := w.compiler.stats.execCount + if e.executes then 1 else 0 } },
        w.routines ++ m.toList⟩
  | invoked {j fuel : Nat} {sink : Sink} {r r' : Routine} {fault : Option Fault} :
    e = ⟨.invoke j fuel sink, .invoked fault⟩ → w.routines[j]? = some r →
    r'.stats = { r.stats with execCount := r.stats.execCount + 1 } →
    Served w e { w with routines := w.routines.set j r' }

theorem served_compileAndExecute {w w' : Workshop} {p : Program} {code : List Instruction}
    (hd : Decodes p.words code) {fuel : Nat} {sink : Sink} {reply : Reply}
    (h : w.serve (.compileAndExecute p fuel sink) = some (reply, w')) :
    Served w ⟨.compileAndExecute p fuel sink, reply⟩ w' := by
  cases hrun : (w.compiler.routineFor code).invoke fuel sink with
  | none =>
    rw [serve, Compiler.compileAndExecute, w.compiler.compile_of_decodes hd] at h
    simp only [hrun] at h
    cases h
  | some answer =>
    obtain ⟨⟨fault, out, events⟩, r⟩ := answer
    rw [w.serve_compileAndExecute hd hrun] at h
    cases fault with
    | none =>
      cases h
      exact .made (m := some r) rfl hd rfl (by rintro _ ⟨⟩; exact Routine.stats_of_invoke hrun)
    | some cause =>
      have hmade : Served w ⟨.compileAndExecute p fuel sink, .refused (.fault cause)⟩ _ :=
        .made (m := none) rfl hd rfl (by nofun)
      rw [Option.toList_none, List.append_nil] at hmade
      cases h
      exact hmade

/-- Serving a request does one of the three. -/
theorem served {w w' : Workshop} {q : Request} {reply : Reply} (h : w.serve q = some (reply, w')) :
    Served w ⟨q, reply⟩ w' := by
  cases hq : q.program? with
  | none =>
    cases q with
    | compile | compileAndExecute => cases hq
    | invoke j fuel sink =>
      cases hj : w.routines[j]? with
      | none =>
        rw [serve, hj] at h
        cases h
      | some r =>
        cases hrun : r.invoke fuel sink with
        | none =>
          simp only [serve, hj, hrun] at h
          cases h
        | some answer =>
          rw [w.serve_invoke hj hrun] at h
          cases h
          exact .invoked rfl hj (Routine.stats_of_invoke hrun)
  | some p =>
    by_cases hp : p.Decodable
    · obtain ⟨code, hd⟩ := Program.decodable_iff.mp hp
      cases q with
      | compile =>
        cases hq
        rw [w.serve_compile hd] at h
        cases h
        exact .made (m := some _) rfl hd rfl (by rintro _ ⟨⟩; rfl)
      | compileAndExecute _ fuel sink =>
        cases hq
        exact served_compileAndExecute hd h
      | invoke => cases hq
    · obtain ⟨cause, hrefused⟩ := w.serve_of_not_decodable hq hp
      rw [hrefused] at h
      cases h
      refine .refused hq hp rfl ?_
      cases q <;> rfl

/-! ### What the history tells -/

/-- The programs that were compiled, in order. -/
def compiled (log : List Record) : List Program := log.filterMap (·.request.compiled?)

/-- The sizes are those of a program, compiled with `k` cached cells. -/
def Measures (k : Nat) (p : Program) (s : CompileStats) : Prop :=
  ∃ code, Decodes p.words code ∧
    s.codeSize = (X64.codegen.assemble Native.runLayout k code).length ∧
    s.instructionCount = code.length

/-- The counters of the `j`-th routine after `log`. When it was returned it got the compiler's
count and the sizes of its own program, and it has counted its own invocations since. -/
def Provenance (k : Nat) (log : List Record) (j : Nat) (s : CompileStats) : Prop :=
  ∃ earlier e later, log = earlier ++ e :: later ∧
    e.returns = true ∧ earlier.countP Record.returns = j ∧
    s.compileCount = (compiled (earlier ++ [e])).length ∧
    (∃ p, e.request.compiled? = some p ∧ Measures k p s) ∧
    s.execCount = (if e.executes then 1 else 0) + later.countP (Record.invokes j)

/-- What all counters are after `log`, if the compiler was made for `k` cached cells. -/
structure Kept (k : Nat) (log : List Record) (w : Workshop) : Prop where
  cachedCells : w.compiler.cachedCells = k
  compileCount : w.compiler.stats.compileCount = (compiled log).length
  execCount : w.compiler.stats.execCount = log.countP Record.executes
  /-- The sizes are those of the last program that was compiled. -/
  sizes : match (compiled log).getLast? with
    | some p => Measures k p w.compiler.stats
    | none => w.compiler.stats.codeSize = 0 ∧ w.compiler.stats.instructionCount = 0
  routines : w.routines.length = log.countP Record.returns
  provenance : ∀ j r, w.routines[j]? = some r → Provenance k log j r.stats

variable {k j : Nat} {log : List Record} {e : Record} {p : Program} {s : CompileStats}

theorem compiled_append (log : List Record) (e : Record) :
    compiled (log ++ [e]) = compiled log ++ e.request.compiled?.toList := by
  rw [compiled, List.filterMap_append]
  cases h : e.request.compiled? with
  | none => simp [h, compiled]
  | some p => simp [h, compiled]

theorem compiled?_of_decodable (h : e.request.program? = some p) (hp : p.Decodable) :
    e.request.compiled? = some p := by
  rw [Request.compiled?, h, Option.filter_some, if_pos (by simpa using hp)]

theorem compiled?_of_not_decodable (h : e.request.program? = some p) (hp : ¬ p.Decodable) :
    e.request.compiled? = none := by
  rw [Request.compiled?, h, Option.filter_some, if_neg (by simpa using hp)]

theorem invokes_of_program? (h : e.request.program? = some p) (j : Nat) : e.invokes j = false := by
  obtain ⟨q, reply⟩ := e
  cases q with
  | compile | compileAndExecute => rfl
  | invoke => cases h

/-- Only an invocation of the routine itself changes its counters. -/
theorem Provenance.append (h : Provenance k log j s) (e : Record) :
    Provenance k (log ++ [e]) j
      { s with execCount := s.execCount + if e.invokes j then 1 else 0 } := by
  obtain ⟨earlier, e', later, rfl, hreturns, hj, hcount, hsizes, hexec⟩ := h
  refine ⟨earlier, e', later ++ [e], by simp, hreturns, hj, hcount, hsizes, ?_⟩
  rw [List.countP_append, List.countP_singleton, ← Nat.add_assoc, ← hexec]

theorem Provenance.append_of_program? (h : Provenance k log j s)
    (he : e.request.program? = some p) : Provenance k (log ++ [e]) j s := by
  have := h.append e
  rwa [invokes_of_program? he, if_neg Bool.false_ne_true] at this

theorem Kept.refused {w : Workshop} (h : Kept k log w) (he : e.request.program? = some p)
    (hp : ¬ p.Decodable) (hreturns : e.returns = false) (hexec : e.executes = false) :
    Kept k (log ++ [e]) w := by
  have hcompiled : compiled (log ++ [e]) = compiled log := by
    rw [compiled_append, compiled?_of_not_decodable he hp, Option.toList_none, List.append_nil]
  refine ⟨h.cachedCells, ?_, ?_, ?_, ?_, fun j r hr => (h.provenance j r hr).append_of_program? he⟩
  · rw [hcompiled]
    exact h.compileCount
  · rw [List.countP_append, List.countP_singleton, hexec]
    exact h.execCount
  · rw [hcompiled]
    exact h.sizes
  · rw [List.countP_append, List.countP_singleton, hreturns]
    exact h.routines

theorem Kept.made {w : Workshop} (h : Kept k log w) {code : List Instruction} {m : Option Routine}
    (he : e.request.program? = some p) (hd : Decodes p.words code)
    (hreturns : e.returns = m.isSome)
    (hm : ∀ r ∈ m, r.stats =
      { w.compiler.tally code with execCount := if e.executes then 1 else 0 }) :
    Kept k (log ++ [e])
      ⟨{ w.compiler with stats :=
          { w.compiler.tally code with
            execCount := w.compiler.stats.execCount + if e.executes then 1 else 0 } },
        w.routines ++ m.toList⟩ := by
  have hp : e.request.compiled? = some p :=
    compiled?_of_decodable he (Program.decodable_iff.mpr ⟨code, hd⟩)
  have hcompiled : compiled (log ++ [e]) = compiled log ++ [p] := by
    rw [compiled_append, hp, Option.toList_some]
  have hcount : (w.compiler.tally code).compileCount = (compiled (log ++ [e])).length := by
    rw [hcompiled, List.length_append, ← h.compileCount]
    rfl
  have hsize : (w.compiler.tally code).codeSize =
      (X64.codegen.assemble Native.runLayout k code).length := by
    rw [← h.cachedCells]
    rfl
  refine ⟨h.cachedCells, hcount, ?_, ?_, ?_, ?_⟩
  · rw [List.countP_append, List.countP_singleton, ← h.execCount]
  · rw [hcompiled, List.getLast?_append, List.getLast?_singleton, Option.some_or]
    exact ⟨code, hd, hsize, rfl⟩
  · rw [List.countP_append, List.countP_singleton, hreturns, List.length_append, h.routines]
    cases m <;> rfl
  · intro j r hr
    rcases Nat.lt_or_ge j w.routines.length with hlt | hge
    · rw [List.getElem?_append_left hlt] at hr
      exact (h.provenance j r hr).append_of_program? he
    · -- beyond the old routines there is at most the one just returned
      rw [List.getElem?_append_right hge] at hr
      obtain ⟨rfl, hj⟩ : m = some r ∧ j = w.routines.length := by
        cases m with
        | none => cases hr
        | some t =>
          rw [Option.toList_some, List.getElem?_singleton] at hr
          split at hr
          · cases hr
            exact ⟨rfl, by omega⟩
          · cases hr
      rw [hm r rfl]
      exact ⟨log, e, [], rfl, hreturns, hj ▸ h.routines.symm, hcount, ⟨p, hp, code, hd, hsize, rfl⟩,
        rfl⟩

theorem Kept.invoked {w : Workshop} (h : Kept k log w) {i fuel : Nat} {sink : Sink}
    {r r' : Routine} {fault : Option Fault} (hr : w.routines[i]? = some r)
    (hr' : r'.stats = { r.stats with execCount := r.stats.execCount + 1 }) :
    Kept k (log ++ [⟨.invoke i fuel sink, .invoked fault⟩])
      { w with routines := w.routines.set i r' } := by
  have hcompiled : compiled (log ++ [⟨.invoke i fuel sink, .invoked fault⟩]) = compiled log := by
    rw [compiled_append]
    exact List.append_nil _
  refine ⟨h.cachedCells, ?_, ?_, ?_, ?_, ?_⟩
  · rw [hcompiled]
    exact h.compileCount
  · rw [List.countP_append]
    exact h.execCount
  · rw [hcompiled]
    exact h.sizes
  · rw [List.countP_append, List.length_set]
    exact h.routines
  · intro j t ht
    rw [List.getElem?_set] at ht
    by_cases hij : i = j
    · subst hij
      obtain ⟨hlt, -⟩ := List.getElem?_eq_some_iff.mp hr
      rw [if_pos rfl, if_pos hlt] at ht
      cases ht
      have hown := (h.provenance i r hr).append ⟨.invoke i fuel sink, .invoked fault⟩
      rw [Record.invokes_invoke, decide_eq_true rfl, if_pos rfl] at hown
      rw [hr']
      exact hown
    · rw [if_neg hij] at ht
      have hother := (h.provenance j t ht).append ⟨.invoke i fuel sink, .invoked fault⟩
      rw [Record.invokes_invoke, decide_eq_false hij] at hother
      exact hother

/-- Serving a request keeps the counters what the history tells. -/
theorem Served.kept {w w' : Workshop} (hs : Served w e w') (h : Kept k log w) :
    Kept k (log ++ [e]) w' := by
  cases hs with
  | refused he hp hreturns hexec => exact h.refused he hp hreturns hexec
  | made he hd hreturns hm => exact h.made he hd hreturns hm
  | invoked he hr hr' =>
    subst he
    exact h.invoked hr hr'

@[simp] theorem serveAll_nil (w : Workshop) : w.serveAll [] = some ([], w) := rfl

theorem serveAll_cons_iff {w w' : Workshop} {q : Request} {qs : List Request} :
    w.serveAll (q :: qs) = some (log, w') ↔
      ∃ reply v rest, w.serve q = some (reply, v) ∧ v.serveAll qs = some (rest, w') ∧
        log = ⟨q, reply⟩ :: rest := by
  rw [serveAll]
  constructor
  · intro h
    cases hq : w.serve q with
    | none =>
      rw [hq] at h
      cases h
    | some answer =>
      obtain ⟨reply, v⟩ := answer
      rw [hq] at h
      obtain ⟨⟨rest, v'⟩, hrest, heq⟩ := Option.map_eq_some_iff.mp h
      cases heq
      exact ⟨reply, v, rest, rfl, hrest, rfl⟩
  · rintro ⟨reply, v, rest, hserve, hrest, rfl⟩
    simp only [hserve, hrest, Option.map_some]

/-- So does serving any number of them. -/
theorem kept_of_serveAll {w w' : Workshop} {qs : List Request} {past : List Record}
    (hkept : Kept k past w) (h : w.serveAll qs = some (log, w')) :
    Kept k (past ++ log) w' ∧ log.map Record.request = qs := by
  induction qs generalizing w past log with
  | nil =>
    cases h
    rw [List.append_nil]
    exact ⟨hkept, rfl⟩
  | cons q qs ih =>
    obtain ⟨reply, v, rest, hserve, hrest, rfl⟩ := serveAll_cons_iff.mp h
    obtain ⟨hkept', hrequests⟩ := ih ((served hserve).kept hkept) hrest
    rw [List.append_assoc] at hkept'
    exact ⟨hkept', congrArg (q :: ·) hrequests⟩

theorem kept_new {c : Compiler} (h : Compiler.new? k = .ok c) : Kept k [] ⟨c, []⟩ := by
  rw [Compiler.new?] at h
  split at h
  · cases h
  · cases h
    exact ⟨rfl, rfl, rfl, ⟨rfl, rfl⟩, rfl, nofun⟩

end Workshop

/-- Whatever is asked of a new compiler and of its routines, all counters are what the history of
requests and replies tells, and what cannot be compiled changes nothing. -/
theorem Compiler.counts_session {k : Nat} {c : Compiler} (hc : new? k = .ok c) {qs : List Request}
    {log : List Record} {w : Workshop} (h : Workshop.serveAll ⟨c, []⟩ qs = some (log, w)) :
    log.map Record.request = qs ∧ Workshop.Kept k log w ∧
      ∀ q p, q.program? = some p → ¬ p.Decodable →
        ∃ cause, w.serve q = some (.refused (.codegen cause), w) := by
  obtain ⟨hkept, hrequests⟩ := Workshop.kept_of_serveAll (Workshop.kept_new hc) h
  exact ⟨hrequests, hkept, fun _ _ hq hp => w.serve_of_not_decodable hq hp⟩

/-- A routine for a program that only prints A succeeds. -/
theorem invoke_of_print {r : Routine}
    (hr : r.Compiled Native.runLayout 2 [⟨.print, .a, 0⟩]) :
    ∃ report r', r.invoke 39 {} = some (report, r') ∧ report.fault = none := by
  have setting : X64.Setting Native.runLayout 2 [⟨.print, .a, 0⟩] Native.runHost Native.entry :=
    ⟨by decide, by decide +kernel, rfl, X64.entry_entered _⟩
  have walk : Walk [⟨.print, .a, 0⟩] 1 State.fresh [⟨.a, 0⟩] State.fresh.next :=
    .cons (p := some ⟨.a, 0⟩) rfl (.nil _)
  obtain ⟨report, r', hinvoke, hfault, -⟩ :=
    setting.invokeAt_within walk (by nofun) hr (Nat.le_refl 39) {}
  exact ⟨report, r', hinvoke, hfault⟩

/-- A word that is no instruction; a routine that leaves its program, invoked by itself and compiled
again to be run at once; and last a program that is compiled, run and kept. -/
theorem Compiler.counts_session_stray :
    ∃ fuel log w,
      Workshop.serveAll ⟨{ cachedCells := 2 }, []⟩
        [.compile ⟨#[0xffffffff], 0⟩, .compile ⟨Native.strayInterpreter.words, 0⟩,
          .invoke 0 fuel {}, .compileAndExecute ⟨Native.strayInterpreter.words, 0⟩ fuel {},
          .compileAndExecute ⟨#[0x07000000], 0⟩ 39 {}] = some (log, w) ∧
      Workshop.Kept 2 log w ∧ w.compiler.stats.compileCount = 3 ∧
      log.countP Record.executes = 1 ∧ w.compiler.stats.execCount = 1 := by
  let stats := tally { cachedCells := 2 } Native.strayProgram
  let again := tally { cachedCells := 2, stats } Native.strayProgram
  obtain ⟨fuel, hfuel⟩ := X64.strayProgram_returns
  obtain ⟨cause, hrefused⟩ := Workshop.serve_of_not_decodable ⟨{ cachedCells := 2 }, []⟩
    (q := .compile ⟨#[0xffffffff], 0⟩) rfl (by decide)
  obtain ⟨report, r, hr, -⟩ := hfuel (routineFor { cachedCells := 2 } _) ⟨rfl, rfl⟩ {}
  have hd : Decodes (⟨Native.strayInterpreter.words, 0⟩ : Program).words Native.strayProgram :=
    Native.strayInterpreter_decodes
  have hcompile := Workshop.serve_compile ⟨{ cachedCells := 2 }, []⟩ hd
  have hinvoke := Workshop.serve_invoke (j := 0) ⟨{ cachedCells := 2, stats }, [_]⟩ rfl hr
  obtain ⟨report', r', hr', hfault'⟩ :=
    hfuel (routineFor { cachedCells := 2, stats } _) ⟨rfl, rfl⟩ {}
  have hagain := Workshop.serve_compileAndExecute ⟨{ cachedCells := 2, stats }, [r]⟩ hd hr'
  rw [hfault' Device.neverRefuses_reliable] at hagain
  obtain ⟨report'', r'', hr'', hfault''⟩ :=
    invoke_of_print (r := routineFor { cachedCells := 2, stats := again } _) ⟨rfl, rfl⟩
  have hprint := Workshop.serve_compileAndExecute ⟨{ cachedCells := 2, stats := again }, [r]⟩
    (p := ⟨#[0x07000000], 0⟩) (.of_encode [⟨.print, .a, 0⟩]) hr''
  rw [hfault''] at hprint
  have h := Workshop.serveAll_cons_iff.mpr ⟨_, _, _, hrefused,
    Workshop.serveAll_cons_iff.mpr ⟨_, _, _, hcompile,
      Workshop.serveAll_cons_iff.mpr ⟨_, _, _, hinvoke,
        Workshop.serveAll_cons_iff.mpr ⟨_, _, _, hagain,
          Workshop.serveAll_cons_iff.mpr ⟨_, _, _, hprint, Workshop.serveAll_nil _, rfl⟩, rfl⟩,
        rfl⟩, rfl⟩, rfl⟩
  obtain ⟨-, hkept, -⟩ := counts_session (k := 2) (c := { cachedCells := 2 }) rfl h
  refine ⟨fuel, _, _, h, hkept, ?_, rfl, ?_⟩
  · rw [hkept.compileCount]
    rfl
  · rw [hkept.execCount]
    rfl

end Dyad
