import Dyad.Proofs.Run.Sequence
import Dyad.Proofs.Run.Step

/-!
Failed steps taken again. A step that fails changes neither registers nor pc nor memory, so after a
refused line the same step can be tried once more. A run that does so whenever a line is refused
(`persistFor`) stays alike to a run on a sink that takes everything: a refused line leaves the two
alike, and any other step is the same step in both (`step_alike`). Such a run ends only as the other
one does (`runFor_of_persistFor`); and it ends if the other one does, provided that its sink refuses
only finitely often (`persistFor_of_runFor`).
-/

namespace Dyad

/-! ### Sinks that give in -/

/-- All offers to a device, newest first, once the first `n` of `lines` have followed `earlier`. -/
def Device.offers (earlier : List String) (lines : Nat → String) : (n : Nat) → List String
  | 0 => earlier
  | n + 1 => lines n :: offers earlier lines n

/-- The lines after one more. -/
def Device.following (line : String) (lines : Nat → String) : Nat → String
  | 0 => line
  | k + 1 => lines k

theorem Device.offers_cons (earlier : List String) (line : String) (lines : Nat → String)
    (n : Nat) :
    offers (line :: earlier) lines n = offers earlier (following line lines) (n + 1) := by
  induction n with
  | zero => rfl
  | succ n ih => exact congrArg (lines n :: ·) ih

theorem Device.following_const (line : String) :
    following line (fun _ => line) = fun _ => line := by
  funext k
  cases k <;> rfl

theorem Device.length_offers (earlier : List String) (lines : Nat → String) (n : Nat) :
    (offers earlier lines n).length = earlier.length + n := by
  induction n with
  | zero => rfl
  | succ n ih => rw [offers, List.length_cons, ih, Nat.add_assoc]

namespace Sink

/-- Whatever lines it is offered from now on, the sink refuses only finitely many of them. -/
def RefusesFinitely (s : Sink) : Prop :=
  ∀ lines : Nat → String, ∃ n, ∀ k, n ≤ k →
    s.device.refusal (Device.offers s.offered lines k) (lines k) = none

variable {s : Sink}

theorem write_device (s : Sink) (line : String) : (s.write line).1.device = s.device := by
  unfold write
  split <;> rfl

theorem write_offered (s : Sink) (line : String) :
    (s.write line).1.offered = line :: s.offered := by
  unfold write
  split <;> rfl

theorem write_refusal (s : Sink) (line : String) :
    (s.write line).2 = s.device.refusal s.offered line := by
  unfold write
  split <;> rename_i h <;> exact h.symm

theorem RefusesFinitely.write (h : s.RefusesFinitely) (line : String) :
    (s.write line).1.RefusesFinitely := by
  intro lines
  obtain ⟨n, hn⟩ := h (Device.following line lines)
  refine ⟨n, fun k hk => ?_⟩
  rw [write_device, write_offered, Device.offers_cons]
  exact hn (k + 1) (Nat.le_succ_of_le hk)

/-- A device that recovers refuses at most one line. -/
theorem refusesFinitely_once (room : Option Nat) (flushFails : Bool) :
    ({ device := .failing room true flushFails } : Sink).RefusesFinitely := by
  intro lines
  cases room with
  | none => exact ⟨0, fun _ _ => rfl⟩
  | some room =>
    refine ⟨room + 1, fun k hk => ?_⟩
    have hlt : room < (Device.offers [] lines k).length := by
      rw [Device.length_offers, List.length_nil]
      omega
    exact if_pos (.inr ⟨rfl, hlt⟩)

end Sink

theorem Printer.printAll_refusesFinitely {sink : Sink} (h : sink.RefusesFinitely)
    (p : Option Print) : (printAll ⟨sink, none⟩ p.toList).sink.RefusesFinitely := by
  cases p with
  | none => exact h
  | some p => exact h.write p.line

namespace Execution

variable {words : Array UInt32} {trace trace' : Bool} {limit : Nat} {x y z : Execution}
  {o : Outcome}

theorem Stepped.device {r : Execution × Outcome} (h : Stepped words trace x r) :
    r.1.sink.device = x.sink.device := by
  cases h with
  | halted | undecodable | astray => rfl
  | @refused _ p _ _ _ _ _ hout | @advanced _ p _ _ _ _ hout =>
    have hdevice := Printer.printAll_device ⟨x.sink, none⟩ p.toList
    rw [hout] at hdevice
    exact hdevice

theorem Stepped.refusesFinitely {r : Execution × Outcome} (h : Stepped words trace x r)
    (hx : x.sink.RefusesFinitely) : r.1.sink.RefusesFinitely := by
  cases h with
  | halted | undecodable | astray => exact hx
  | @refused _ p _ _ _ _ _ hout | @advanced _ p _ _ _ _ hout =>
    have hsink := Printer.printAll_refusesFinitely hx p
    rw [hout] at hsink
    exact hsink

/-! ### Runs that are alike -/

/-- Two runs are in the same state, have executed as many instructions and hold the same text. -/
structure Alike (x z : Execution) : Prop where
  state : x.state = z.state
  executed : x.executed = z.executed
  text : x.sink.text = z.sink.text

/-- Takes steps until one neither advances nor has its line refused, at most `limit` of them. A step
whose line is refused is taken again. The outcome is `advanced` exactly if the limit ended the
run. -/
def persistFor (words : Array UInt32) (trace : Bool) :
    (limit : Nat) → Execution → Execution × Outcome
  | 0, x => (x, .advanced)
  | limit + 1, x =>
    match step words trace x with
    | (x, .advanced) | (x, .failed (.output _)) => persistFor words trace limit x
    | (x, outcome) => (x, outcome)

/-- Of two runs that are alike, where the second one's sink takes everything, either the first one
has its line refused where the second one advances, and stays alike to it as it was; or both make
the same step. -/
theorem step_alike (trace' : Bool) (h : Alike x z) (hz : z.sink.device.NeverRefuses)
    (hx : Stepped words trace x (y, o)) :
    (∃ p reason, printed words x = some p ∧ x.sink.write p.line = (y.sink, some reason) ∧
      o = .failed (.output reason) ∧ Alike y z ∧
      ∃ z', Stepped words trace' z (z', .advanced)) ∨
    ∃ z', Stepped words trace' z (z', o) ∧ (∀ reason, o ≠ .failed (.output reason)) ∧
      Alike y z' := by
  have hstate := h.state
  cases hx with
  | halted hge =>
    rw [hstate] at hge
    exact .inr ⟨z, .halted hge, nofun, h⟩
  | undecodable hfetch =>
    rw [hstate] at hfetch
    exact .inr ⟨z, .undecodable hfetch, nofun, h⟩
  | astray hfetch hturn =>
    rw [hstate] at hfetch hturn ⊢
    exact .inr ⟨_, .astray hfetch hturn, nofun, rfl, h.executed, h.text⟩
  | refused hfetch hturn hout =>
    obtain ⟨p, rfl, hwrite⟩ := Printer.write_of_refused hout
    obtain ⟨sink, hout', -⟩ := Printer.exists_printAll_of_neverRefuses hz [p]
    have hp := printed_of_turnBy hfetch hturn
    have htext := (Sink.text_of_refused hwrite).trans h.text
    rw [hstate] at hfetch hturn
    exact .inl ⟨p, _, hp, hwrite, rfl, ⟨hstate, h.executed, htext⟩, _, .advanced hfetch hturn hout'⟩
  | @advanced _ p _ _ hfetch hturn hout =>
    obtain ⟨sink, hout', -⟩ := Printer.exists_printAll_of_neverRefuses hz p.toList
    rw [hstate] at hfetch hturn
    refine .inr ⟨_, .advanced hfetch hturn hout', nofun, rfl, ?_, ?_⟩
    · exact congrArg (· + 1) h.executed
    · rw [Printer.text_of_printAll hout, Printer.text_of_printAll hout', h.text]

/-! ### Runs that try again -/

theorem persistFor_of_refused {reason : String}
    (h : step words trace x = (y, .failed (.output reason))) (limit : Nat) :
    persistFor words trace (limit + 1) x = persistFor words trace limit y := by
  rw [persistFor, h]

theorem persistFor_of_advanced (h : step words trace x = (y, .advanced)) (limit : Nat) :
    persistFor words trace (limit + 1) x = persistFor words trace limit y := by
  rw [persistFor, h]

theorem persistFor_of_ended (h : step words trace x = (y, o)) (ho : o ≠ .advanced)
    (hout : ∀ reason, o ≠ .failed (.output reason)) (limit : Nat) :
    persistFor words trace (limit + 1) x = (y, o) := by
  rw [persistFor, h]
  cases o with
  | advanced => exact absurd rfl ho
  | halted => rfl
  | failed cause =>
    cases cause with
    | output reason => exact absurd rfl (hout reason)
    | undecodable | jumpOutOfRange => rfl

/-- However often its lines are refused, a run that tries again is alike to one that has no need to,
and ends only as that one does. -/
theorem runFor_of_persistFor (trace' : Bool) (h : Alike x z) (hz : z.sink.device.NeverRefuses)
    (hx : persistFor words trace limit x = (y, o)) :
    ∃ n z', n ≤ limit ∧ runFor words trace' n z = (z', o) ∧
      (∀ reason, o ≠ .failed (.output reason)) ∧ Alike y z' := by
  induction limit generalizing x z with
  | zero =>
    cases hx
    exact ⟨0, z, Nat.le_refl 0, rfl, nofun, h⟩
  | succ limit ih =>
    obtain ⟨x', o', hstep⟩ : ∃ x' o', step words trace x = (x', o') := ⟨_, _, rfl⟩
    have hstepped := stepped words trace x
    rw [hstep] at hstepped
    obtain ⟨p, reason, -, -, rfl, halike, -⟩ | ⟨z', hz', hout, halike⟩ :=
      step_alike trace' h hz hstepped
    · rw [persistFor_of_refused hstep] at hx
      obtain ⟨n, z', hn, hrun⟩ := ih halike hz hx
      exact ⟨n, z', Nat.le_succ_of_le hn, hrun⟩
    · by_cases ho : o' = .advanced
      · subst ho
        rw [persistFor_of_advanced hstep] at hx
        obtain ⟨n, z'', hn, hrun, hrest⟩ := ih halike (hz'.device ▸ hz) hx
        refine ⟨n + 1, z'', Nat.succ_le_succ hn, ?_, hrest⟩
        rw [runFor, hz'.eq]
        exact hrun
      · rw [persistFor_of_ended hstep ho hout] at hx
        cases hx
        exact ⟨1, z', by omega, runFor_of_step hz'.eq ho Nat.one_pos, hout, halike⟩

/-- The line that `x` is about to print is refused less than `n` times more if it is offered over
and over again. -/
def GivesInBy (words : Array UInt32) (n : Nat) (x : Execution) : Prop :=
  ∀ p, printed words x = some p → ∀ k, n ≤ k →
    x.sink.device.refusal (Device.offers x.sink.offered (fun _ => p.line) k) p.line = none

theorem exists_givesInBy (words : Array UInt32) (hx : x.sink.RefusesFinitely) :
    ∃ n, GivesInBy words n x := by
  cases hp : printed words x with
  | none =>
    refine ⟨0, fun p hp' => ?_⟩
    rw [hp] at hp'
    cases hp'
  | some p =>
    obtain ⟨n, hn⟩ := hx fun _ => p.line
    refine ⟨n, fun p' hp' => ?_⟩
    rw [hp] at hp'
    cases hp'
    exact hn

/-- A refusal is one of those that were still to come. -/
theorem GivesInBy.refused {n : Nat} {p : Print} {reason : String} (hx : GivesInBy words n x)
    (hp : printed words x = some p) (hstate : y.state = x.state)
    (hwrite : x.sink.write p.line = (y.sink, some reason)) :
    ∃ m, n = m + 1 ∧ GivesInBy words m y := by
  cases n with
  | zero =>
    have hrefusal := x.sink.write_refusal p.line
    rw [hwrite] at hrefusal
    cases hrefusal.trans (hx p hp 0 (Nat.le_refl 0))
  | succ m =>
    refine ⟨m, rfl, fun p' hp' k hk => ?_⟩
    have hsame : printed words y = printed words x := by simp only [printed, hstate]
    rw [hsame, hp] at hp'
    cases hp'
    have hsink : y.sink = (x.sink.write p.line).1 := by rw [hwrite]
    rw [hsink, Sink.write_device, Sink.write_offered, Device.offers_cons, Device.following_const]
    exact hx p hp (k + 1) (Nat.succ_le_succ hk)

/-- What advances on a sink that takes everything does so after finitely many refusals. -/
theorem persistFor_until_advanced {n : Nat} {z' : Execution} (h : Alike x z)
    (hz : z.sink.device.NeverRefuses) (hz' : step words trace' z = (z', .advanced))
    (hx : x.sink.RefusesFinitely) (hn : GivesInBy words n x) :
    ∃ k x', (∀ limit, persistFor words trace (k + limit) x = persistFor words trace limit x') ∧
      Alike x' z' ∧ x'.sink.RefusesFinitely := by
  induction n using Nat.strongRecOn generalizing x with
  | ind n ih =>
    obtain ⟨x', o, hstep⟩ : ∃ x' o, step words trace x = (x', o) := ⟨_, _, rfl⟩
    have hstepped := stepped words trace x
    rw [hstep] at hstepped
    have hx' := hstepped.refusesFinitely hx
    obtain ⟨p, reason, hp, hwrite, rfl, halike, -⟩ | ⟨z'', hz'', -, halike⟩ :=
      step_alike trace' h hz hstepped
    · obtain ⟨m, rfl, hm⟩ := hn.refused hp (hstepped.state_of_failed rfl) hwrite
      obtain ⟨k, x'', hrun, hrest⟩ := ih m (Nat.lt_succ_self m) halike hx' hm
      refine ⟨k + 1, x'', fun limit => ?_, hrest⟩
      rw [Nat.add_right_comm, persistFor_of_refused hstep, hrun]
    · cases hz''.eq.symm.trans hz'
      refine ⟨1, x', fun limit => ?_, halike, hx'⟩
      rw [Nat.add_comm, persistFor_of_advanced hstep]

/-- If its sink refuses only finitely often, a run that tries again ends if the one that has no need
to does, and as that one does. -/
theorem persistFor_of_runFor (trace : Bool) {z' : Execution} (h : Alike x z)
    (hz : z.sink.device.NeverRefuses) (hx : x.sink.RefusesFinitely)
    (hrun : runFor words trace' limit z = (z', o)) (ho : o ≠ .advanced) :
    ∃ k y, persistFor words trace k x = (y, o) ∧ Alike y z' := by
  induction limit generalizing x z with
  | zero =>
    cases hrun
    exact absurd rfl ho
  | succ limit ih =>
    obtain ⟨z₁, o₁, hstep⟩ : ∃ z₁ o₁, step words trace' z = (z₁, o₁) := ⟨_, _, rfl⟩
    have hstepped := stepped words trace' z
    rw [hstep] at hstepped
    by_cases ho₁ : o₁ = .advanced
    · subst ho₁
      obtain ⟨n, hn⟩ := exists_givesInBy words hx
      obtain ⟨k, x₁, hpersist, halike, hx₁⟩ := persistFor_until_advanced h hz hstep hx hn
      rw [runFor, hstep] at hrun
      obtain ⟨k', y, hy, hend⟩ := ih halike (hstepped.device ▸ hz) hx₁ hrun
      exact ⟨k + k', y, (hpersist k').trans hy, hend⟩
    · rw [runFor_of_step hstep ho₁ (Nat.succ_pos limit)] at hrun
      cases hrun
      obtain ⟨y, o', hy⟩ : ∃ y o', step words trace x = (y, o') := ⟨_, _, rfl⟩
      have hstepped' := stepped words trace x
      rw [hy] at hstepped'
      obtain ⟨_, _, _, _, _, _, z₂, hadvanced⟩ | ⟨z₂, hsame, hout, halike⟩ :=
        step_alike trace' h hz hstepped'
      · cases hstep.symm.trans hadvanced.eq
        exact absurd rfl ho
      · cases hstep.symm.trans hsame.eq
        exact ⟨1, y, persistFor_of_ended hy ho hout 0, halike⟩

/-- Failed steps can be taken again. A step that fails leaves the state as it was; so a run that
takes a step again whenever its line is refused ends as it would on a sink that takes everything, in
the same state, after as many instructions, with the same text and with the same fault if there is
one. That holds whatever its sink refuses, and if that is only finitely much it does end. -/
theorem persistFor_alike (words : Array UInt32) (trace : Bool) (x : Execution) :
    (∀ cause, (step words trace x).2 = .failed cause → (step words trace x).1.state = x.state) ∧
    ∀ (trace' : Bool) (z : Execution), Alike x z → z.sink.device.NeverRefuses →
      (∀ limit y o, persistFor words trace limit x = (y, o) → o ≠ .advanced →
        (∀ reason, o ≠ .failed (.output reason)) ∧
          ∃ limit' z', runFor words trace' limit' z = (z', o) ∧ Alike y z') ∧
      (x.sink.RefusesFinitely →
        ∀ limit z' o, runFor words trace' limit z = (z', o) → o ≠ .advanced →
          ∃ limit' y, persistFor words trace limit' x = (y, o) ∧ Alike y z') := by
  refine ⟨fun cause => (stepped words trace x).state_of_failed, fun trace' z h hz => ⟨?_, ?_⟩⟩
  · intro limit y o hpersist _
    obtain ⟨n, z', -, hrun, hout, halike⟩ := runFor_of_persistFor trace' h hz hpersist
    exact ⟨hout, n, z', hrun, halike⟩
  · intro hx limit z' o hrun ho
    exact persistFor_of_runFor trace h hz hx hrun ho

/-- The second of two lines is refused once, and then there is a word that is no instruction. -/
theorem persistFor_alike_once :
    ∃ limit y, persistFor #[0x07000000, 0x07010000, 0xff000000] true limit
        { sink := { device := .failing (some 1) true true } } =
          (y, .failed (.undecodable (.invalidOpcode 0xff000000 0xff))) ∧
      y.state.pc = 2 ∧ y.executed = 2 ∧
      y.sink.text = "A        0(0x00000000)\nB        0(0x00000000)\n" := by
  obtain ⟨-, retried⟩ := persistFor_alike #[0x07000000, 0x07010000, 0xff000000] true
    { sink := { device := .failing (some 1) true true } }
  obtain ⟨-, ends⟩ := retried false {} ⟨rfl, rfl, rfl⟩ Device.neverRefuses_reliable
  obtain ⟨limit, y, hy, halike⟩ := ends (Sink.refusesFinitely_once _ _) 3 _ _ rfl nofun
  exact ⟨limit, y, hy, congrArg State.pc halike.state, halike.executed, halike.text⟩

end Execution

end Dyad
