import Dyad.Native.Machine
import Dyad.Proofs.Native.Passage

/-!
Machine code that stands at the current position. A machine runs through a piece of code if it
carries out one instruction of it after another (`Runs`); such a run is a passage of the machine
(`Runs.passage`), and its first instruction is left behind for good (`Runs.leap`).
-/

namespace Dyad.Native

variable {R S I : Type} [RegisterSet R] [InstructionSet I]

/-! ### Code -/

/-- The number of bytes of a piece of code. -/
def codeSize : List I → Nat
  | [] => 0
  | i :: is => size i + codeSize is

@[simp] theorem codeSize_nil : codeSize ([] : List I) = 0 := rfl

@[simp] theorem codeSize_cons (i : I) (is : List I) :
    codeSize (i :: is) = size i + codeSize is := rfl

@[simp] theorem codeSize_append (is js : List I) :
    codeSize (is ++ js) = codeSize is + codeSize js := by
  induction is with
  | nil => rw [List.nil_append, codeSize_nil, Nat.zero_add]
  | cons i is ih => rw [List.cons_append, codeSize_cons, codeSize_cons, ih, Nat.add_assoc]

@[simp] theorem length_flatMap_encode (is : List I) :
    (is.flatMap InstructionSet.encode).length = codeSize is := by
  induction is with
  | nil => rfl
  | cons i is ih => rw [List.flatMap_cons, List.length_append, ih, codeSize_cons, size]

/-- The instruction is read off its own bytes, whatever follows them. -/
def Readable (i : I) : Prop :=
  ∀ rest, InstructionSet.decode (InstructionSet.encode i ++ rest) = some (i, size i)

/-- The bytes from position `p` on begin with the code of `is`, which can be read back. -/
structure CodeAt (bytes : List UInt8) (p : Nat) (is : List I) : Prop where
  stands : ∃ rest, bytes.drop p = is.flatMap InstructionSet.encode ++ rest
  readable : ∀ i ∈ is, Readable i

namespace CodeAt

variable {bytes : List UInt8} {p : Nat} {i : I} {is js : List I}

theorem left (h : CodeAt bytes p (is ++ js)) : CodeAt bytes p is where
  stands := by
    obtain ⟨rest, h⟩ := h.stands
    exact ⟨js.flatMap InstructionSet.encode ++ rest,
      by rw [h, List.flatMap_append, List.append_assoc]⟩
  readable i hi := h.readable i (List.mem_append_left _ hi)

theorem right (h : CodeAt bytes p (is ++ js)) : CodeAt bytes (p + codeSize is) js where
  stands := by
    obtain ⟨rest, h⟩ := h.stands
    refine ⟨rest, ?_⟩
    rw [← List.drop_drop, h, List.flatMap_append, List.append_assoc]
    exact List.drop_left' (length_flatMap_encode is)
  readable i hi := h.readable i (List.mem_append_right _ hi)

theorem tail (h : CodeAt bytes p (i :: is)) : CodeAt bytes (p + size i) is :=
  @CodeAt.right _ _ _ _ [i] _ h

theorem decode (h : CodeAt bytes p (i :: is)) :
    InstructionSet.decode ((Image.ofBytes bytes).drop p) = some (i, size i) := by
  obtain ⟨rest, hrest⟩ := h.stands
  rw [Image.drop_ofBytes, hrest, List.flatMap_cons, List.append_assoc]
  exact h.readable i List.mem_cons_self _

end CodeAt

/-! ### One instruction -/

/-- The instruction at the current position. -/
def current (code : Image) (c : Cpu R S) : Option I :=
  (InstructionSet.decode (code.drop c.ip)).map (·.1)

/-- The instruction at the current position has a property. -/
def Has (T : Cpu R S → I → Prop) (code : Image) (c : Cpu R S) : Prop :=
  ∃ i, current code c = some i ∧ T c i

variable {exec : Semantics R S I} {bytes : List UInt8} {code : Image} {c d e : Cpu R S} {i : I}
  {is js : List I}

theorem step_of_codeAt (exec : Semantics R S I) (h : CodeAt bytes c.ip (i :: is)) :
    step exec (Image.ofBytes bytes) c = exec (c.ip + size i) c i := by
  rw [step, h.decode]

theorem current_of_codeAt (h : CodeAt bytes c.ip (i :: is)) :
    current (Image.ofBytes bytes) c = some i := by
  rw [current, h.decode, Option.map_some]

/-- A step carries out the current instruction. -/
theorem exists_step_eq (exec : Semantics R S I) (h : current code c = some i) :
    ∃ next, step exec code c = exec next c i := by
  obtain ⟨⟨j, n⟩, hdecode, rfl⟩ := Option.map_eq_some_iff.mp h
  exact ⟨c.ip + n, by rw [step, hdecode]⟩

theorem step_eq_of_current_eq_none (exec : Semantics R S I)
    (h : current (I := I) code c = none) : step exec code c = (c, .stuck) := by
  rw [step, Option.map_eq_none_iff.mp h]

/-- The instruction is carried out, and the machine goes on with what stands behind it. -/
structure Goes (exec : Semantics R S I) (c : Cpu R S) (i : I) (d : Cpu R S) : Prop where
  exec_eq : exec (c.ip + size i) c i = (d, .running)
  ip_eq : d.ip = c.ip + size i

/-! ### Instructions in the order in which they stand -/

/-- The machine carries out `is`, one instruction after another, and gets from `c` to the last
state. Each instruction has the property in the state in which it is carried out. -/
inductive Runs (exec : Semantics R S I) (T : Cpu R S → I → Prop) :
    Cpu R S → List I → Cpu R S → Prop where
  | nil (c : Cpu R S) : Runs exec T c [] c
  | cons {c d e : Cpu R S} {i : I} {is : List I} (goes : Goes exec c i d) (here : T c i)
      (rest : Runs exec T d is e) : Runs exec T c (i :: is) e

namespace Runs

variable {T U : Cpu R S → I → Prop}

theorem one (goes : Goes exec c i d) (here : T c i) : Runs exec T c [i] d :=
  .cons goes here (.nil d)

theorem append (h : Runs exec T c is d) (h' : Runs exec T d js e) :
    Runs exec T c (is ++ js) e := by
  induction h with
  | nil => exact h'
  | cons goes here _ ih => exact .cons goes here (ih h')

theorem mono (h : Runs exec T c is d) (hTU : ∀ c i, T c i → U c i) : Runs exec U c is d := by
  induction h with
  | nil c => exact .nil c
  | cons goes here _ ih => exact .cons goes (hTU _ _ here) ih

theorem ip_eq (h : Runs exec T c is d) : d.ip = c.ip + codeSize is := by
  induction h with
  | nil => rfl
  | cons goes _ _ ih => rw [ih, goes.ip_eq, codeSize_cons, Nat.add_assoc]

theorem ip_add_size (h : Runs exec T c is d) (j : I) :
    d.ip + size j = c.ip + codeSize (is ++ [j]) := by
  rw [h.ip_eq, codeSize_append, codeSize_cons, codeSize_nil, Nat.add_zero, Nat.add_assoc]

/-- What every single instruction keeps is kept. -/
theorem keeps {P : Cpu R S → Cpu R S → Prop} (refl : ∀ c, P c c)
    (trans : ∀ {c d e}, P c d → P d e → P c e)
    (one : ∀ {c d i}, T c i → Goes exec c i d → P c d) (h : Runs exec T c is d) : P c d := by
  induction h with
  | nil c => exact refl c
  | cons goes here _ ih => exact trans (one here goes) ih

/-- Code that stands at the current position is passed. -/
theorem passage (h : Runs exec T c is d) (hcode : CodeAt bytes c.ip is) :
    Passage (step exec (Image.ofBytes bytes))
      (fun e => c.ip ≤ e.ip ∧ e.ip < c.ip + codeSize is ∧ Has T (Image.ofBytes bytes) e)
      is.length c d := by
  induction h with
  | nil c => exact .nil c
  | @cons c d e i is goes here _ ih =>
    have hpos := size_pos i
    have hip := goes.ip_eq
    have htail := hcode.tail
    rw [← hip] at htail
    refine .cons ⟨Nat.le_refl _, ?_, i, current_of_codeAt hcode, here⟩
      ((step_of_codeAt exec hcode).trans goes.exec_eq) ((ih htail).mono ?_)
    · rw [codeSize_cons]
      omega
    · rintro e ⟨hlo, hhi, he⟩
      rw [codeSize_cons]
      exact ⟨by omega, by omega, he⟩

/-- The first instruction is left behind for good. -/
theorem leap (h : Runs exec T c (i :: is) d) (hcode : CodeAt bytes c.ip (i :: is)) :
    Leap (step exec (Image.ofBytes bytes))
      (fun e => e.ip = c.ip ∧ Has T (Image.ofBytes bytes) e)
      (fun e => c.ip < e.ip ∧ e.ip < c.ip + codeSize (i :: is) ∧ Has T (Image.ofBytes bytes) e)
      is.length c d := by
  cases h with
  | @cons _ m _ _ _ goes here rest =>
    have hpos := size_pos i
    have hip := goes.ip_eq
    have htail := hcode.tail
    rw [← hip] at htail
    refine ⟨⟨rfl, i, current_of_codeAt hcode, here⟩, m,
      (step_of_codeAt exec hcode).trans goes.exec_eq, (rest.passage htail).mono ?_⟩
    rintro e ⟨hlo, hhi, he⟩
    rw [codeSize_cons]
    exact ⟨by omega, by omega, he⟩

/-- What stands behind the code that is run through is one step further. -/
theorem leap_step {j : I} (h : Runs exec T c is d)
    (hcode : CodeAt bytes c.ip (is ++ j :: js)) (here : T d j)
    (hexec : exec (d.ip + size j) d j = (e, .running)) :
    Leap (step exec (Image.ofBytes bytes))
      (fun e => e.ip = c.ip ∧ Has T (Image.ofBytes bytes) e)
      (fun e => c.ip < e.ip ∧ e.ip < c.ip + codeSize (is ++ j :: js) ∧
        Has T (Image.ofBytes bytes) e) is.length c e := by
  have hpos := size_pos j
  have hip := h.ip_eq
  have hright := hcode.right
  rw [← hip] at hright
  have hstep := (step_of_codeAt exec hright).trans hexec
  have hcurrent := current_of_codeAt hright
  cases h with
  | nil => exact ⟨⟨rfl, j, hcurrent, here⟩, e, hstep, .nil e⟩
  | @cons _ _ _ i is goes first rest =>
    have hsize := size_pos i
    refine Leap.append ((Runs.leap (.cons goes first rest) hcode.left).mono (fun _ h => h) ?_)
      (.one ⟨?_, ?_, j, hcurrent, here⟩ hstep)
    · rintro e ⟨hlo, hhi, he⟩
      rw [codeSize_append]
      exact ⟨hlo, by omega, he⟩
    · rw [hip, codeSize_cons]
      omega
    · rw [hip, codeSize_append, codeSize_cons j]
      omega

end Runs

end Dyad.Native
