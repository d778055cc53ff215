import Dyad.Native.Machine
import Dyad.Proofs.Run.Walk

/-!
Machine code that follows a program. A machine is given by its step function; a relation between
states of the program and of the machine is kept by the code if every turn of the program is
matched by at least one step of the machine, and the end of the program by a return. Then the code
returns exactly if the program ends (`Follows.returns_iff`), and what it leaves behind is what the
relation says of the end (`Follows.left_of_returned`).
-/

namespace Dyad.Native

variable {C : Type} {step : C → C × Status}

/-- `n` steps lead from `c` to `d`, where the code is still running. -/
inductive Steps (step : C → C × Status) : Nat → C → C → Prop where
  | nil (c : C) : Steps step 0 c c
  | cons {n : Nat} {c d e : C} (head : step c = (d, .running)) (rest : Steps step n d e) :
      Steps step (n + 1) c e

namespace Steps

variable {m n : Nat} {c d e : C}

theorem one (h : step c = (d, .running)) : Steps step 1 c d := .cons h (.nil d)

theorem trans (h : Steps step m c d) (h' : Steps step n d e) : Steps step (m + n) c e := by
  induction h with
  | nil => rw [Nat.zero_add]; exact h'
  | cons head _ ih => rw [Nat.succ_add]; exact .cons head (ih h')

theorem runFor_add (h : Steps step n c d) (limit : Nat) :
    runFor step (n + limit) c = runFor step limit d := by
  induction h with
  | nil => rw [Nat.zero_add]
  | cons head _ ih => rw [Nat.succ_add, runFor, head]; exact ih

/-- One more step returns. -/
theorem runFor_succ {a : UInt64} (h : Steps step n c d) (hstep : step d = (e, .returned a)) :
    runFor step (n + 1) c = (e, .returned a) := by
  rw [h.runFor_add, runFor, hstep]

theorem runFor_eq (h : Steps step n c d) (hm : m ≤ n) : (runFor step m c).2 = .running := by
  induction h generalizing m with
  | nil =>
    cases Nat.le_zero.mp hm
    rfl
  | cons head _ ih =>
    cases m with
    | zero => rfl
    | succ m => rw [runFor, head]; exact ih (by omega)

/-- The rest of a longer run. -/
theorem rest (h : Steps step m c d) (h' : Steps step n c e) (hle : m ≤ n) :
    Steps step (n - m) d e := by
  induction h generalizing n with
  | nil => exact h'
  | cons head _ ih =>
    cases h' with
    | nil => cases hle
    | cons head' rest =>
      rw [head] at head'
      cases head'
      rw [Nat.add_sub_add_right]
      exact ih rest (Nat.le_of_succ_le_succ hle)

theorem calls_grow {calls : C → List Call} (grows : ∀ c, calls c <+: calls (step c).1)
    (h : Steps step n c d) : calls c <+: calls d := by
  induction h with
  | nil => exact List.prefix_refl _
  | @cons n c d e head _ ih =>
    have hgrows := grows c
    rw [head] at hgrows
    exact hgrows.trans ih

end Steps

/-- The code returns from `c` to address `a`, leaving `d` behind. -/
def Returns (step : C → C × Status) (c : C) (a : UInt64) (d : C) : Prop :=
  ∃ limit, runFor step limit c = (d, .returned a)

theorem runFor_returned_mono {limit more : Nat} {c d : C} {a : UInt64}
    (h : runFor step limit c = (d, .returned a)) (hle : limit ≤ more) :
    runFor step more c = (d, .returned a) := by
  induction limit generalizing more c with
  | zero => cases h
  | succ limit ih =>
    obtain ⟨more, rfl⟩ := Nat.exists_eq_add_of_le' (show 1 ≤ more by omega)
    rw [runFor] at h ⊢
    split at h
    · exact ih h (by omega)
    · exact h

namespace Returns

variable {c d d' : C} {a a' : UInt64}

theorem steps_iff {n : Nat} (h : Steps step n c d) : Returns step c a d' ↔ Returns step d a d' := by
  constructor
  · rintro ⟨limit, hrun⟩
    have hrun := runFor_returned_mono hrun (Nat.le_add_left limit n)
    exact ⟨limit, (h.runFor_add limit).symm.trans hrun⟩
  · rintro ⟨limit, hrun⟩
    exact ⟨n + limit, (h.runFor_add limit).trans hrun⟩

theorem calls_grow {calls : C → List Call} (grows : ∀ c, calls c <+: calls (step c).1)
    (h : Returns step c a d) : calls c <+: calls d := by
  obtain ⟨limit, hrun⟩ := h
  induction limit generalizing c with
  | zero => cases hrun
  | succ limit ih =>
    have hgrows := grows c
    rw [runFor] at hrun
    split at hrun
    · rename_i head
      rw [head] at hgrows
      exact hgrows.trans (ih hrun)
    · rename_i head
      rw [head, hrun] at hgrows
      exact hgrows

/-- A step returns, after others that do not. -/
theorem last_step (h : Returns step c a d) :
    ∃ m e, Steps step m c e ∧ step e = (d, .returned a) := by
  obtain ⟨limit, hrun⟩ := h
  induction limit generalizing c with
  | zero => cases hrun
  | succ limit ih =>
    rw [runFor] at hrun
    split at hrun
    · rename_i head
      obtain ⟨m, e, hsteps, hlast⟩ := ih hrun
      exact ⟨m + 1, e, .cons head hsteps, hlast⟩
    · rename_i head
      exact ⟨0, c, .nil c, head.trans hrun⟩

/-- The code returns once. -/
theorem unique (h : Returns step c a d) (h' : Returns step c a' d') : a = a' ∧ d = d' := by
  obtain ⟨m, hm⟩ := h
  obtain ⟨n, hn⟩ := h'
  have hm := runFor_returned_mono hm (Nat.le_add_right m n)
  have hn := runFor_returned_mono hn (Nat.le_add_left n m)
  rw [hm] at hn
  cases hn
  exact ⟨rfl, rfl⟩

end Returns

/-- Entered in `entry`, the machine code follows the program: `At s ps c` relates a state of the
program, reached after printing `ps`, to a state of the machine, and `Left s ps c` says what the
code has left behind when it has returned after the end of the program in `s`. -/
structure Follows (step : C → C × Status) (code : List Instruction) (entry : C)
    (At Left : State → List Print → C → Prop) : Prop where
  starts : ∃ n c, Steps step n entry c ∧ At State.fresh [] c
  onward {s t : State} {p : Option Print} {ps : List Print} {c : C} :
    At s ps c → s.turn code = .onward p t →
      ∃ n d, Steps step (n + 1) c d ∧ At t (ps ++ p.toList) d
  ends {s : State} {ps : List Print} {c : C} :
    At s ps c → s.Ends code → ∃ a d, Returns step c a d ∧ Left s ps d

namespace Follows

variable {code : List Instruction} {entry : C} {At Left : State → List Print → C → Prop}
  {s t : State} {ps qs : List Print} {n : Nat}

/-- A walk is matched by at least as many steps of the machine as it has turns. -/
theorem steps_of_walk (F : Follows step code entry At Left) {c : C} (w : Walk code n s qs t)
    (h : At s ps c) : ∃ m d, n ≤ m ∧ Steps step m c d ∧ At t (ps ++ qs) d := by
  induction w generalizing ps c with
  | nil s => exact ⟨0, c, Nat.le_refl 0, .nil c, by simpa using h⟩
  | cons turn _ ih =>
    obtain ⟨m, d, hsteps, hd⟩ := F.onward h turn
    obtain ⟨m', e, hle, hsteps', he⟩ := ih hd
    refine ⟨m + 1 + m', e, by omega, hsteps.trans hsteps', ?_⟩
    simpa [List.append_assoc] using he

theorem steps_from_entry (F : Follows step code entry At Left)
    (w : Walk code n State.fresh ps t) : ∃ m d, n ≤ m ∧ Steps step m entry d ∧ At t ps d := by
  obtain ⟨k, c, hstart, hc⟩ := F.starts
  obtain ⟨m, d, hle, hsteps, hd⟩ := F.steps_of_walk w hc
  exact ⟨k + m, d, by omega, hstart.trans hsteps, hd⟩

theorem returns_of_walk (F : Follows step code entry At Left) (w : Walk code n State.fresh ps t)
    (ht : t.Ends code) : ∃ a d, Returns step entry a d ∧ Left t ps d := by
  obtain ⟨m, d, _, hsteps, hd⟩ := F.steps_from_entry w
  obtain ⟨a, e, hret, hleft⟩ := F.ends hd ht
  exact ⟨a, e, (Returns.steps_iff hsteps).mpr hret, hleft⟩

/-- The code returns exactly if the program ends. -/
theorem returns_iff (F : Follows step code entry At Left) :
    (∃ a d, Returns step entry a d) ↔
      ∃ n ps t, Walk code n State.fresh ps t ∧ t.Ends code := by
  constructor
  · rintro ⟨a, d, limit, hrun⟩
    rcases Walk.exists_or_ends code limit State.fresh with ⟨ps, t, w⟩ | ⟨n, ps, t, _, w, ht⟩
    · -- a walk as long as the run would keep the machine running
      obtain ⟨m, e, hle, hsteps, _⟩ := F.steps_from_entry w
      have hrunning := hsteps.runFor_eq hle
      rw [hrun] at hrunning
      cases hrunning
    · exact ⟨n, ps, t, w, ht⟩
  · rintro ⟨n, ps, t, w, ht⟩
    obtain ⟨a, d, hret, _⟩ := F.returns_of_walk w ht
    exact ⟨a, d, hret⟩

theorem left_of_returned (F : Follows step code entry At Left)
    (w : Walk code n State.fresh ps t) (ht : t.Ends code) {a : UInt64} {d : C}
    (hret : Returns step entry a d) : Left t ps d := by
  obtain ⟨a', d', hret', hleft⟩ := F.returns_of_walk w ht
  obtain ⟨rfl, rfl⟩ := hret.unique hret'
  exact hleft

/-- If a machine only ever adds to its calls, and has made those that `f` gives for the prints of
the program whenever the two are related, then the calls it has made in any state that it reaches
are the first of them. -/
theorem calls_grow (F : Follows step code entry At Left) {calls : C → List Call}
    {f : Print → Call} (grows : ∀ c, calls c <+: calls (step c).1)
    (hAt : ∀ {s ps c}, At s ps c → calls c = ps.map f)
    (hLeft : ∀ {s ps c}, Left s ps c → calls c = ps.map f) {m : Nat} {c : C}
    (hs : Steps step m entry c) :
    ∃ n ps t, Walk code n State.fresh ps t ∧ calls c <+: ps.map f := by
  rcases Walk.exists_or_ends code m State.fresh with ⟨ps, t, w⟩ | ⟨n, ps, t, _, w, ht⟩
  · obtain ⟨k, d, hle, hsteps, hd⟩ := F.steps_from_entry w
    refine ⟨m, ps, t, w, ?_⟩
    rw [← hAt hd]
    exact (hs.rest hsteps hle).calls_grow grows
  · obtain ⟨a, d, hret, hleft⟩ := F.returns_of_walk w ht
    refine ⟨n, ps, t, w, ?_⟩
    rw [← hLeft hleft]
    exact ((Returns.steps_iff hs).mp hret).calls_grow grows

end Follows

end Dyad.Native
