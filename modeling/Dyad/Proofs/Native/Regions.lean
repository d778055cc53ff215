import Dyad.Native.Ram

/-!
Regions of the memory that native code sees. A region is a first address and a number of bytes;
addresses count modulo `2 ^ 64`, so a region may wrap around. What is stored in one region is not
seen in a region apart from it, and the words of a stack are read back as they were pushed.
-/

namespace Dyad.Ram

/-- No byte belongs to both the `m` bytes from `a` on and the `n` bytes from `b` on. -/
def Apart (a : UInt64) (m : Nat) (b : UInt64) (n : Nat) : Prop :=
  ∀ i < m, ∀ j < n, a + UInt64.ofNat i ≠ b + UInt64.ofNat j

namespace Apart

variable {a b : UInt64} {m n p q : Nat}

theorem symm (h : Apart a m b n) : Apart b n a m :=
  fun i hi j hj heq => h j hj i hi heq.symm

theorem sub (h : Apart a m b n) (hp : p + q ≤ m) : Apart (a + UInt64.ofNat p) q b n := by
  intro i hi j hj heq
  rw [UInt64.add_assoc, ← UInt64.ofNat_add] at heq
  exact h (p + i) (by omega) j hj heq

theorem sub_right (h : Apart a m b n) (hp : p + q ≤ n) : Apart a m (b + UInt64.ofNat p) q :=
  (h.symm.sub hp).symm

/-- Two parts of one region that do not meet, on either side. -/
theorem of_le (a : UInt64) (h : p + m ≤ q) (hn : q + n ≤ p + 0x10000000000000000) :
    Apart (a + UInt64.ofNat p) m (a + UInt64.ofNat q) n := by
  intro i hi j hj heq
  rw [UInt64.add_assoc, UInt64.add_assoc, ← UInt64.ofNat_add, ← UInt64.ofNat_add,
    UInt64.add_right_inj] at heq
  have heq := congrArg UInt64.toNat heq
  simp only [UInt64.toNat_ofNat'] at heq
  omega

/-- Two regions one after the other, neither of which wraps around. -/
theorem of_toNat (h : a.toNat + m ≤ b.toNat) (hn : b.toNat + n ≤ 0x10000000000000000) :
    Apart a m b n := by
  intro i hi j hj heq
  have heq := congrArg UInt64.toNat heq
  simp only [UInt64.toNat_add, UInt64.toNat_ofNat'] at heq
  omega

end Apart

/-! ### Loads and stores -/

theorem get_store32_of_ne {m : Ram} {a b : UInt64} {v : UInt32}
    (h : ∀ i < 4, a + UInt64.ofNat i ≠ b) : (m.store32 a v).get b = m.get b := by
  have h₀ : a + 0 ≠ b := h 0 (by omega)
  have h₁ : a + 1 ≠ b := h 1 (by omega)
  have h₂ : a + 2 ≠ b := h 2 (by omega)
  have h₃ : a + 3 ≠ b := h 3 (by omega)
  rw [UInt64.add_zero] at h₀
  simp only [store32, get_set]
  rw [if_neg h₃, if_neg h₂, if_neg h₁, if_neg h₀]

theorem get_store64_of_ne {m : Ram} {a b : UInt64} {v : UInt64}
    (h : ∀ i < 8, a + UInt64.ofNat i ≠ b) : (m.store64 a v).get b = m.get b := by
  rw [store64, get_store32_of_ne, get_store32_of_ne fun i hi => h i (by omega)]
  intro i hi
  rw [show (4 : UInt64) = UInt64.ofNat 4 from rfl, UInt64.add_assoc, ← UInt64.ofNat_add]
  exact h (4 + i) (by omega)

@[simp] theorem load32_store32 (m : Ram) (a : UInt64) (v : UInt32) :
    (m.store32 a v).load32 a = v := by
  simp [load32, store32, get_set, LittleEndian.word32_bytes32]

/-- The two halves of a double word. -/
theorem load64_eq (m : Ram) (a : UInt64) :
    m.load64 a = (m.load32 a).toUInt64 + (m.load32 (a + 4)).toUInt64 * 0x100000000 := by
  simp only [load64, load32, LittleEndian.word64, UInt64.add_assoc a 4]
  rfl

/-- The memory holds the same bytes as before in a region. -/
def Agree (m m' : Ram) (a : UInt64) (n : Nat) : Prop :=
  ∀ j < n, m'.get (a + UInt64.ofNat j) = m.get (a + UInt64.ofNat j)

namespace Agree

variable {m m' m'' : Ram} {a b : UInt64} {n p q : Nat}

theorem trans (h : Agree m m' a n) (h' : Agree m' m'' a n) : Agree m m'' a n :=
  fun j hj => (h' j hj).trans (h j hj)

theorem sub (h : Agree m m' a n) (hp : p + q ≤ n) : Agree m m' (a + UInt64.ofNat p) q := by
  intro j hj
  rw [UInt64.add_assoc, ← UInt64.ofNat_add]
  exact h (p + j) (by omega)

theorem load32 (h : Agree m m' a 4) : m'.load32 a = m.load32 a := by
  have h₀ : m'.get (a + 0) = m.get (a + 0) := h 0 (by omega)
  have h₁ : m'.get (a + 1) = m.get (a + 1) := h 1 (by omega)
  have h₂ : m'.get (a + 2) = m.get (a + 2) := h 2 (by omega)
  have h₃ : m'.get (a + 3) = m.get (a + 3) := h 3 (by omega)
  rw [UInt64.add_zero] at h₀
  rw [Ram.load32, h₀, h₁, h₂, h₃, Ram.load32]

theorem load64 (h : Agree m m' a 8) : m'.load64 a = m.load64 a := by
  have hlow : Agree m m' (a + 0) 4 := h.sub (p := 0) (by omega)
  have hhigh : Agree m m' (a + 4) 4 := h.sub (p := 4) (by omega)
  rw [UInt64.add_zero] at hlow
  rw [load64_eq, load64_eq, hlow.load32, hhigh.load32]

theorem store32 (h : Apart b 4 a n) (v : UInt32) : Agree m (m.store32 b v) a n :=
  fun j hj => get_store32_of_ne fun i hi => h i hi j hj

theorem store64 (h : Apart b 8 a n) (v : UInt64) : Agree m (m.store64 b v) a n :=
  fun j hj => get_store64_of_ne fun i hi => h i hi j hj

end Agree

theorem load32_store32_of_apart {m : Ram} {a b : UInt64} {v : UInt32} (h : Apart a 4 b 4) :
    (m.store32 a v).load32 b = m.load32 b :=
  (Agree.store32 h v).load32

@[simp] theorem load64_store64 (m : Ram) (a v : UInt64) : (m.store64 a v).load64 a = v := by
  have hne : Apart (a + 4) 4 (a + 0) 4 :=
    (Apart.of_le (p := 0) (q := 4) a (by omega) (by omega)).symm
  rw [UInt64.add_zero] at hne
  rw [load64_eq, store64, load32_store32_of_apart hne, load32_store32, load32_store32]
  apply UInt64.toNat_inj.mp
  have hv := v.toNat_lt
  simp only [UInt64.toNat_add, UInt64.toNat_mul, UInt32.toNat_toUInt64, UInt64.toNat_toUInt32,
    UInt64.toNat_shiftRight, UInt64.reduceToNat, Nat.reduceMod, Nat.shiftRight_eq_div_pow]
  omega

theorem load32_of_zero {m : Ram} {a : UInt64} (h : ∀ i < 4, m.get (a + UInt64.ofNat i) = 0) :
    m.load32 a = 0 := by
  have h₀ : m.get (a + 0) = 0 := h 0 (by omega)
  have h₁ : m.get (a + 1) = 0 := h 1 (by omega)
  have h₂ : m.get (a + 2) = 0 := h 2 (by omega)
  have h₃ : m.get (a + 3) = 0 := h 3 (by omega)
  rw [UInt64.add_zero] at h₀
  rw [load32, h₀, h₁, h₂, h₃]
  rfl

/-! ### Words on a stack -/

/-- The words from `sp` upwards. -/
def StackHolds (m : Ram) : (sp : UInt64) → List UInt64 → Prop
  | _, [] => True
  | sp, w :: ws => m.load64 sp = w ∧ StackHolds m (sp + 8) ws

namespace StackHolds

variable {m m' : Ram} {sp w : UInt64} {ws : List UInt64}

theorem congr (h : StackHolds m sp ws) (hm : Agree m m' sp (8 * ws.length)) :
    StackHolds m' sp ws := by
  induction ws generalizing sp with
  | nil => trivial
  | cons w ws ih =>
    rw [List.length_cons] at hm
    have hhead : Agree m m' (sp + 0) 8 := hm.sub (p := 0) (by omega)
    have htail : Agree m m' (sp + 8) (8 * ws.length) := hm.sub (p := 8) (by omega)
    rw [UInt64.add_zero] at hhead
    exact ⟨hhead.load64.trans h.1, ih h.2 htail⟩

theorem push (h : StackHolds m sp ws) (w : UInt64)
    (hroom : 8 * (ws.length + 1) ≤ 0x10000000000000000) :
    StackHolds (m.store64 (sp - 8) w) (sp - 8) (w :: ws) := by
  refine ⟨load64_store64 m _ w, ?_⟩
  have hsp : sp - 8 + 8 = sp := UInt64.sub_add_cancel sp 8
  have hapart : Apart (sp - 8 + 0) 8 (sp - 8 + 8) (8 * ws.length) :=
    .of_le (p := 0) (q := 8) _ (by omega) (by omega)
  rw [UInt64.add_zero, hsp] at hapart
  rw [hsp]
  exact h.congr (.store64 hapart w)

theorem push_pair (h : StackHolds m sp ws) (v w : UInt64)
    (hroom : 8 * (ws.length + 2) ≤ 0x10000000000000000) :
    StackHolds ((m.store64 (sp - 16) v).store64 (sp - 16 + 8) w) (sp - 16) (v :: w :: ws) := by
  have hsp : sp - 16 + 8 + 8 = sp := by
    rw [UInt64.add_assoc]
    exact UInt64.sub_add_cancel sp 16
  have hupper : Apart (sp - 16 + 8) 8 (sp - 16 + 0) 8 :=
    (Apart.of_le (p := 0) (q := 8) _ (by omega) (by omega)).symm
  have hfirst : Apart (sp - 16 + 0) 8 (sp - 16 + 16) (8 * ws.length) :=
    .of_le (p := 0) (q := 16) _ (by omega) (by omega)
  have hsecond : Apart (sp - 16 + 8) 8 (sp - 16 + 16) (8 * ws.length) :=
    .of_le (p := 8) (q := 16) _ (by omega) (by omega)
  rw [UInt64.add_zero] at hupper hfirst
  rw [UInt64.sub_add_cancel] at hfirst hsecond
  refine ⟨?_, load64_store64 _ _ w, ?_⟩
  · rw [(Agree.store64 hupper w).load64, load64_store64]
  · rw [hsp]
    exact h.congr (.trans (.store64 hfirst v) (.store64 hsecond w))

end StackHolds

end Dyad.Ram
