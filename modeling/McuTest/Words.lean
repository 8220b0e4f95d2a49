import Mathlib.Algebra.Group.Nat.Defs

/-! A byte-addressed memory that is read and written in little-endian words. -/

namespace Words

abbrev Word := BitVec 32

abbrev Memory := Word → UInt8

def byteOf (w : Word) (i : Nat) : UInt8 :=
  UInt8.ofNat (w.toNat / 256 ^ i)

def load (m : Memory) (a : Word) : Word :=
  BitVec.ofNat 32 ((m a).toNat + 256 * ((m (a + 1)).toNat + 256 * ((m (a + 2)).toNat +
    256 * (m (a + 3)).toNat)))

/-- `x` is one of the `n` bytes from `a` on. -/
def Within (a : Word) (n : Nat) (x : Word) : Prop :=
  (x - a).toNat < n

instance (a : Word) (n : Nat) (x : Word) : Decidable (Within a n x) :=
  inferInstanceAs (Decidable ((x - a).toNat < n))

def store (m : Memory) (a w : Word) : Memory := fun x =>
  if Within a 4 x then byteOf w (x - a).toNat else m x

/-- The `n` bytes from `src` on, copied to `dst`. -/
def copied (m : Memory) (src dst : Word) (n : Nat) : Memory := fun x =>
  if Within dst n x then m (src + (x - dst)) else m x

def filled (m : Memory) (a : Word) (n : Nat) (v : UInt8) : Memory := fun x =>
  if Within a n x then v else m x

variable (m : Memory) {a b src dst x : Word} {i n k : Nat}

theorem byteOf_load (hi : i < 4) : byteOf (load m a) i = m (a + BitVec.ofNat 32 i) := by
  have h₀ := (m a).toNat_lt
  have h₁ := (m (a + 1)).toNat_lt
  have h₂ := (m (a + 2)).toNat_lt
  have h₃ := (m (a + 3)).toNat_lt
  apply UInt8.toNat_inj.mp
  rw [byteOf, load, BitVec.toNat_ofNat, UInt8.toNat_ofNat']
  match i, hi with
  | 0, _ => rw [BitVec.add_zero]; omega
  | 1, _ => change _ = (m (a + 1)).toNat; omega
  | 2, _ => change _ = (m (a + 2)).toNat; omega
  | 3, _ => change _ = (m (a + 3)).toNat; omega

theorem store_load : store m dst (load m src) = copied m src dst 4 := by
  funext x
  by_cases hx : Within dst 4 x
  · have hread := byteOf_load m (a := src) hx
    rw [BitVec.ofNat_toNat, BitVec.setWidth_eq] at hread
    simp only [store, copied, if_pos hx, hread]
  · simp [store, copied, hx]

theorem store_zero : store m a 0#32 = filled m a 4 0 := by
  funext x
  by_cases hx : Within a 4 x <;> simp [store, filled, hx, byteOf]

@[simp] theorem copied_zero : copied m src dst 0 = m := by
  funext x
  simp [copied, Within]

@[simp] theorem filled_zero (v : UInt8) : filled m a 0 v = m := by
  funext x
  simp [filled, Within]

theorem within_add (hn : n + k < 2 ^ 32) :
    Within a (n + k) x ↔ Within a n x ∨ Within (a + BitVec.ofNat 32 n) k x := by
  unfold Within
  bv_omega

theorem filled_filled (v : UInt8) (hn : n + k < 2 ^ 32) :
    filled (filled m a n v) (a + BitVec.ofNat 32 n) k v = filled m a (n + k) v := by
  funext x
  have hx := within_add (a := a) (x := x) hn
  simp only [filled]
  split <;> split <;> simp_all

/-- A copy may be made in parts if the source ends before the destination begins. -/
theorem copied_copied (hsrc : src.toNat + (n + k) ≤ dst.toNat)
    (hdst : dst.toNat + (n + k) < 2 ^ 32) :
    copied (copied m src dst n) (src + BitVec.ofNat 32 n) (dst + BitVec.ofNat 32 n) k =
      copied m src dst (n + k) := by
  funext x
  have hx := within_add (a := dst) (x := x) (n := n) (k := k) (by omega)
  by_cases hk : Within (dst + BitVec.ofNat 32 n) k x
  · have hread : src + BitVec.ofNat 32 n + (x - (dst + BitVec.ofNat 32 n)) = src + (x - dst) := by
      bv_omega
    have hout : ¬Within dst n (src + (x - dst)) := by
      unfold Within at hk ⊢
      bv_omega
    simp [copied, hk, hread, hout, hx]
  · simp [copied, hk, hx]

end Words
