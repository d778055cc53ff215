import Dyad.Proofs.Native.Positions
import Dyad.Proofs.Native.Simulation

/-!
Machine code watched at every step. A passage is a run whose states, up to its last, all have a
property; where a machine goes from one kind of state to the next by passages, the property holds
of every state it reaches (`Passage.everywhere`), so what holds in every part of a routine holds all
along (`Divided.everywhere`). Starts are states worth counting: code that follows a program from
start to start arrives at its `n`-th start when the program has taken `n` turns (`Paced.arrives`).
-/

namespace Dyad.Native

variable {C : Type} {step : C → C × Status} {P Q R : C → Prop}

/-- `n` steps lead from `c` to `d`, and every state before `d` has the property. -/
inductive Passage (step : C → C × Status) (P : C → Prop) : Nat → C → C → Prop where
  | nil (c : C) : Passage step P 0 c c
  | cons {n : Nat} {c d e : C} (here : P c) (head : step c = (d, .running))
      (rest : Passage step P n d e) : Passage step P (n + 1) c e

namespace Passage

variable {m n : Nat} {c d e : C}

theorem one (here : P c) (head : step c = (d, .running)) : Passage step P 1 c d :=
  .cons here head (.nil d)

theorem trans (h : Passage step P m c d) (h' : Passage step P n d e) :
    Passage step P (m + n) c e := by
  induction h with
  | nil => rw [Nat.zero_add]; exact h'
  | cons here head _ ih => rw [Nat.succ_add]; exact .cons here head (ih h')

theorem mono (h : Passage step P n c d) (hPQ : ∀ e, P e → Q e) : Passage step Q n c d := by
  induction h with
  | nil c => exact .nil c
  | cons here head _ ih => exact .cons (hPQ _ here) head ih

theorem steps (h : Passage step P n c d) : Steps step n c d := by
  induction h with
  | nil c => exact .nil c
  | cons _ head _ ih => exact .cons head ih

/-- A state that is reached from `c` lies on the passage or behind it. -/
theorem on_or_behind (h : Passage step P n c d) (hs : Steps step m c e) :
    P e ∨ ∃ k, m = n + k ∧ Steps step k d e := by
  induction h generalizing m with
  | nil c => exact .inr ⟨m, (Nat.zero_add m).symm, hs⟩
  | cons here head _ ih =>
    cases hs with
    | nil => exact .inl here
    | cons head' rest =>
      rw [head] at head'
      cases head'
      rcases ih rest with he | ⟨k, rfl, hk⟩
      · exact .inl he
      · exact .inr ⟨k, by omega, hk⟩

/-- If from each waypoint a passage leads to another one, or to a state from which the code does
not go on, then the property holds of every state that is reached from a waypoint. -/
theorem everywhere (Waypoint : C → Prop)
    (advance : ∀ c, Waypoint c →
      (∃ n d, Passage step P (n + 1) c d ∧ Waypoint d) ∨
      ∃ n d, Passage step P n c d ∧ P d ∧ ∀ e, step d ≠ (e, .running))
    (hc : Waypoint c) (hs : Steps step m c e) : P e := by
  induction m using Nat.strongRecOn generalizing c with
  | ind m ih =>
    rcases advance c hc with ⟨n, d, hpass, hd⟩ | ⟨n, d, hpass, hd, stops⟩
    · rcases hpass.on_or_behind hs with he | ⟨k, rfl, hk⟩
      · exact he
      · exact ih k (by omega) hd hk
    · rcases hpass.on_or_behind hs with he | ⟨k, rfl, hk⟩
      · exact he
      · cases hk with
        | nil => exact hd
        | cons head _ => exact absurd head (stops _)

end Passage

/-- The code leaves `c`, which has the first property, and gets to `d`; the states in between have
the second one. -/
def Leap (step : C → C × Status) (P Q : C → Prop) (n : Nat) (c d : C) : Prop :=
  P c ∧ ∃ c', step c = (c', .running) ∧ Passage step Q n c' d

namespace Leap

variable {n : Nat} {c d : C}

theorem passage (h : Leap step P Q n c d) (hP : ∀ e, P e → R e) (hQ : ∀ e, Q e → R e) :
    Passage step R (n + 1) c d := by
  obtain ⟨here, c', head, rest⟩ := h
  exact .cons (hP c here) head (rest.mono hQ)

theorem mono {P' Q' : C → Prop} (h : Leap step P Q n c d) (hP : ∀ e, P e → P' e)
    (hQ : ∀ e, Q e → Q' e) : Leap step P' Q' n c d := by
  obtain ⟨here, c', head, rest⟩ := h
  exact ⟨hP c here, c', head, rest.mono hQ⟩

/-- A leap followed by a passage. -/
theorem append {m : Nat} {e : C} (h : Leap step P Q m c d) (h' : Passage step Q n d e) :
    Leap step P Q (m + n) c e := by
  obtain ⟨here, c', head, rest⟩ := h
  exact ⟨here, c', head, rest.trans h'⟩

theorem steps (h : Leap step P Q n c d) : Steps step (n + 1) c d := by
  obtain ⟨_, c', head, rest⟩ := h
  exact .cons head rest.steps

end Leap

/-! ### Code in blocks -/

/-- Machine code that is entered in `entry` and divided by labels: what comes before the first one
leads to the first of `size` blocks, each block to another one or to what follows the last, and
there the code comes to an end. Up to the last label every state has the first property, from
there on the second. -/
structure Divided (step : C → C × Status) (ip : C → Nat) (label : Nat → Nat) (size : Nat)
    (entry : C) (Poised : Nat → C → Prop) (P Q : C → Prop) : Prop where
  ascends : ∀ l < size, label l < label (l + 1)
  pc_le {pc : Nat} {c : C} : Poised pc c → pc ≤ size
  opens : ∃ n d, Passage step (fun e => ip e < label 0 ∧ P e) n entry d ∧ Poised 0 d
  crosses {pc : Nat} {c : C} : Poised pc c → pc < size →
    ∃ n l d, Leap step (fun e => ip e = label pc ∧ P e)
      (fun e => label pc < ip e ∧ ip e < label (pc + 1) ∧ P e) n c d ∧ Poised l d
  closes {c : C} : Poised size c →
    ∃ n d, Passage step (fun e => label size ≤ ip e ∧ Q e) n c d ∧
      (label size ≤ ip d ∧ Q d) ∧ ∀ e, step d ≠ (e, .running)

/-- Every state that divided code reaches has one of the two properties, by its position. -/
theorem Divided.everywhere {ip : C → Nat} {label : Nat → Nat} {size m : Nat} {entry c : C}
    {Poised : Nat → C → Prop} (D : Divided step ip label size entry Poised P Q)
    (hs : Steps step m entry c) :
    ip c < label size ∧ P c ∨ label size ≤ ip c ∧ Q c := by
  have hlast : ∀ l ≤ size, label l ≤ label size := fun l hl =>
    start_le_start D.ascends hl (Nat.le_refl size)
  obtain ⟨n, start, opening, poised⟩ := D.opens
  rcases opening.on_or_behind hs with ⟨hip, hc⟩ | ⟨k, -, hk⟩
  · exact .inl ⟨Nat.lt_of_lt_of_le hip (hlast 0 (Nat.zero_le size)), hc⟩
  · refine Passage.everywhere (P := fun c => ip c < label size ∧ P c ∨ label size ≤ ip c ∧ Q c)
      (fun c => ∃ pc, Poised pc c) ?_ ⟨0, poised⟩ hk
    rintro c ⟨pc, h⟩
    rcases Nat.lt_or_eq_of_le (D.pc_le h) with hlt | rfl
    · obtain ⟨n, l, d, hcross, hd⟩ := D.crosses h hlt
      have hpc := D.ascends pc hlt
      have hnext := hlast (pc + 1) hlt
      refine .inl ⟨n, d, hcross.passage ?_ ?_, l, hd⟩
      · rintro e ⟨hip, he⟩
        exact .inl ⟨by omega, he⟩
      · rintro e ⟨_, hip, he⟩
        exact .inl ⟨by omega, he⟩
    · obtain ⟨n, d, closing, hd, stops⟩ := D.closes h
      exact .inr ⟨n, d, closing.mono fun e he => .inr he, .inr hd, stops⟩

/-! ### Arrivals -/

/-- From `c` on, `e` is where the machine arrives at a start for the `n`-th time, counted from
zero. -/
inductive Arrival (step : C → C × Status) (Start : C → Prop) : Nat → C → C → Prop where
  | here {c : C} : Start c → Arrival step Start 0 c c
  | pass {n : Nat} {c d e : C} : ¬ Start c → step c = (d, .running) → Arrival step Start n d e →
      Arrival step Start n c e
  | leave {n : Nat} {c d e : C} : Start c → step c = (d, .running) → Arrival step Start n d e →
      Arrival step Start (n + 1) c e

namespace Arrival

variable {Start : C → Prop} {n : Nat} {c d e e' : C}

theorem unique (h : Arrival step Start n c e) (h' : Arrival step Start n c e') : e = e' := by
  induction h with
  | here hc =>
    cases h' with
    | here => rfl
    | pass hn => exact absurd hc hn
  | pass hn head _ ih =>
    cases h' with
    | here hc => exact absurd hc hn
    | pass _ head' rest =>
      rw [head] at head'
      cases head'
      exact ih rest
    | leave hc => exact absurd hc hn
  | leave hc head _ ih =>
    cases h' with
    | pass hn => exact absurd hc hn
    | leave _ head' rest =>
      rw [head] at head'
      cases head'
      exact ih rest

theorem of_passage {m : Nat} (h : Passage step (fun e => ¬ Start e) m c d)
    (h' : Arrival step Start n d e) : Arrival step Start n c e := by
  induction h with
  | nil => exact h'
  | cons here head _ ih => exact .pass here head (ih h')

end Arrival

/-- Entered in `entry`, the machine code follows the program from start to start: `At s ps c`
relates a state of the program, reached after printing `ps`, to a start of the machine, and the
next turn of the program leads to the next start. -/
structure Paced (step : C → C × Status) (code : List Instruction) (entry : C)
    (At : State → List Print → C → Prop) (Start : C → Prop) : Prop where
  starts : ∃ n c, Passage step (fun e => ¬ Start e) n entry c ∧ At State.fresh [] c
  start {s : State} {ps : List Print} {c : C} : At s ps c → Start c
  onward {s t : State} {p : Option Print} {ps : List Print} {c : C} :
    At s ps c → s.turn code = .onward p t →
      ∃ n d, Leap step Start (fun e => ¬ Start e) n c d ∧ At t (ps ++ p.toList) d

namespace Paced

variable {code : List Instruction} {entry : C} {At : State → List Print → C → Prop}
  {Start : C → Prop} {s t : State} {ps qs : List Print} {n : Nat}

/-- The step of a walk is one start further. -/
theorem arrives_of_walk (F : Paced step code entry At Start) {c : C} (w : Walk code n s qs t)
    (h : At s ps c) : ∃ d, Arrival step Start n c d ∧ At t (ps ++ qs) d := by
  induction w generalizing ps c with
  | nil s => exact ⟨c, .here (F.start h), by simpa using h⟩
  | cons turn _ ih =>
    obtain ⟨_, d, ⟨hc, c', head, rest⟩, hd⟩ := F.onward h turn
    obtain ⟨e, arrival, he⟩ := ih hd
    refine ⟨e, .leave hc head (.of_passage rest arrival), ?_⟩
    simpa [List.append_assoc] using he

/-- After `n` turns of the program the machine is at its `n`-th start. -/
theorem arrives (F : Paced step code entry At Start) (w : Walk code n State.fresh ps t) :
    ∃ c, Arrival step Start n entry c ∧ At t ps c := by
  obtain ⟨_, c, hpass, hc⟩ := F.starts
  obtain ⟨d, arrival, hd⟩ := F.arrives_of_walk w hc
  exact ⟨d, .of_passage hpass arrival, hd⟩

end Paced

end Dyad.Native
