/-! Code bytes arranged so that those from any position on are at hand. -/

namespace Dyad

structure Image where
  /-- At position `i`, the bytes from `i` on. -/
  tails : Array (List UInt8)

namespace Image

/-- Appends the tails of `bytes`, the longest first. -/
def collect (tails : Array (List UInt8)) : List UInt8 → Array (List UInt8)
  | [] => tails
  | b :: bytes => collect (tails.push (b :: bytes)) bytes

def ofBytes (bytes : List UInt8) : Image := ⟨collect #[] bytes⟩

instance : Inhabited Image := ⟨ofBytes []⟩

/-- The number of bytes. -/
def size (im : Image) : Nat := im.tails.size

/-- The bytes from position `i` on; none beyond the end. -/
def drop (im : Image) (i : Nat) : List UInt8 := im.tails.getD i []

theorem getElem?_collect_of_lt {tails : Array (List UInt8)} {i : Nat} (h : i < tails.size)
    (bytes : List UInt8) : (collect tails bytes)[i]? = tails[i]? := by
  induction bytes generalizing tails with
  | nil => rfl
  | cons b bytes ih =>
    rw [collect, ih (by simp; omega), Array.getElem?_push_lt h, Array.getElem?_eq_getElem h]

theorem getD_collect (tails : Array (List UInt8)) (bytes : List UInt8) (i : Nat) :
    (collect tails bytes).getD (tails.size + i) [] = bytes.drop i := by
  induction bytes generalizing tails i with
  | nil => simp [collect]
  | cons b bytes ih =>
    cases i with
    | zero => simp [collect, Array.getD_eq_getD_getElem?, getElem?_collect_of_lt]
    | succ i =>
      have h := ih (tails.push (b :: bytes)) i
      rw [Array.size_push, Nat.add_assoc, Nat.add_comm 1 i] at h
      exact h

@[simp] theorem drop_ofBytes (bytes : List UInt8) (i : Nat) :
    (ofBytes bytes).drop i = bytes.drop i := by
  simpa [drop, ofBytes] using getD_collect #[] bytes i

end Image

end Dyad
