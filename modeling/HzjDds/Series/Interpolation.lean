import Mathlib.Algebra.Order.Floor.Semiring
import Mathlib.Algebra.Order.Field.Basic
import Mathlib.Tactic.Linarith
import Mathlib.Tactic.Ring

/-!
# Interpolation between the entries of a series

Library `Series`. Linear interpolation of a sequence at a position that need not be a whole number.
-/

namespace HzjDds.Series

variable {K : Type*} [Field K] [LinearOrder K] [IsStrictOrderedRing K] [FloorSemiring K]

/-- The value at position `k`, between the two entries next to it. -/
def interpolate (f : ℕ → K) (k : K) : K :=
  f ⌊k⌋₊ * (1 - (k - ⌊k⌋₊)) + f (⌊k⌋₊ + 1) * (k - ⌊k⌋₊)

omit [IsStrictOrderedRing K] in
private theorem interpolate_eq (f : ℕ → K) (k : K) :
    interpolate f k = f ⌊k⌋₊ + (f (⌊k⌋₊ + 1) - f ⌊k⌋₊) * (k - ⌊k⌋₊) := by
  unfold interpolate
  ring

private theorem interpolate_mem {f : ℕ → K} (hf : Monotone f) {k : K} (hk : 0 ≤ k) :
    f ⌊k⌋₊ ≤ interpolate f k ∧ interpolate f k ≤ f (⌊k⌋₊ + 1) := by
  have hstep : 0 ≤ f (⌊k⌋₊ + 1) - f ⌊k⌋₊ := sub_nonneg.mpr (hf (Nat.le_succ _))
  have hlow : 0 ≤ k - ⌊k⌋₊ := sub_nonneg.mpr (Nat.floor_le hk)
  have hhigh : k - ⌊k⌋₊ ≤ 1 := by
    have hlt := Nat.lt_floor_add_one k
    linarith
  rw [interpolate_eq]
  constructor
  · have hmove := mul_nonneg hstep hlow
    linarith
  · have hmove := mul_le_mul_of_nonneg_left hhigh hstep
    linarith

/-- Interpolation of a sequence that does not decrease does not decrease. -/
theorem interpolate_mono {f : ℕ → K} (hf : Monotone f) {k l : K} (hk : 0 ≤ k) (hkl : k ≤ l) :
    interpolate f k ≤ interpolate f l := by
  have hl : 0 ≤ l := hk.trans hkl
  rcases (Nat.floor_mono hkl).eq_or_lt with hsame | hless
  · have hstep : 0 ≤ f (⌊l⌋₊ + 1) - f ⌊l⌋₊ := sub_nonneg.mpr (hf (Nat.le_succ _))
    have hmove : (f (⌊l⌋₊ + 1) - f ⌊l⌋₊) * (k - ⌊l⌋₊) ≤ (f (⌊l⌋₊ + 1) - f ⌊l⌋₊) * (l - ⌊l⌋₊) :=
      mul_le_mul_of_nonneg_left (by linarith) hstep
    rw [interpolate_eq, interpolate_eq, hsame]
    linarith
  · calc interpolate f k ≤ f (⌊k⌋₊ + 1) := (interpolate_mem hf hk).2
      _ ≤ f ⌊l⌋₊ := hf hless
      _ ≤ interpolate f l := (interpolate_mem hf hl).1

/-- Bounds on the entries are bounds on the values between them. -/
theorem interpolate_bounds {f : ℕ → K} (hf : Monotone f) {low high k : K} (hk : 0 ≤ k)
    (hlow : ∀ n, low ≤ f n) (hhigh : ∀ n, f n ≤ high) :
    low ≤ interpolate f k ∧ interpolate f k ≤ high :=
  ⟨(hlow _).trans (interpolate_mem hf hk).1, (interpolate_mem hf hk).2.trans (hhigh _)⟩

omit [IsStrictOrderedRing K] in
/-- The value between entries that are scaled and shifted is scaled and shifted. -/
theorem interpolate_affine (f : ℕ → K) (a c k : K) :
    interpolate (fun n ↦ a * f n + c) k = a * interpolate f k + c := by
  unfold interpolate
  ring

end HzjDds.Series
