import Mathlib.Algebra.Order.AbsoluteValue.Basic
import Mathlib.Algebra.Order.Field.Basic
import Mathlib.Algebra.BigOperators.Group.List.Basic
import Mathlib.Tactic.FieldSimp
import Mathlib.Tactic.Linarith
import Mathlib.Tactic.Ring

/-!
# Gaps of a series, and running means

Library `Series`. The differences of consecutive entries of a list, and the mean that moves towards
each entry by a fixed fraction of the difference.
-/

namespace HzjDds.Series

/-! ## Gaps -/

section Gaps

variable {G : Type*} [AddCommGroup G]

/-- The differences of consecutive entries. -/
def gaps (l : List G) : List G := List.zipWith (fun a b ↦ b - a) l l.tail

@[simp] theorem gaps_singleton (a : G) : gaps [a] = [] := rfl

@[simp] theorem gaps_cons_cons (a b : G) (l : List G) :
    gaps (a :: b :: l) = (b - a) :: gaps (b :: l) := rfl

@[simp] theorem length_gaps (l : List G) : (gaps l).length = l.length - 1 := by
  simp [gaps]

/-- The gaps add up to the difference of the ends. -/
theorem sum_gaps (a : G) (l : List G) : (gaps (a :: l)).sum = (a :: l).getLast (by simp) - a := by
  induction l generalizing a with
  | nil => simp
  | cons b l ih =>
    rw [gaps_cons_cons, List.sum_cons, ih b, List.getLast_cons (List.cons_ne_nil b l),
      add_comm, sub_add_sub_cancel]

/-- Gaps do not depend on the origin. -/
theorem gaps_map_add (l : List G) (c : G) : gaps (l.map (· + c)) = gaps l := by
  induction l with
  | nil => rfl
  | cons a l ih =>
    cases l with
    | nil => rfl
    | cons b l =>
      rw [List.map_cons, List.map_cons, gaps_cons_cons, gaps_cons_cons, add_sub_add_right_eq_sub]
      rw [List.map_cons] at ih
      rw [ih]

/-- All gaps vanish exactly when all entries are equal. -/
theorem forall_gaps_eq_zero_iff (l : List G) :
    (∀ d ∈ gaps l, d = 0) ↔ ∀ x ∈ l, ∀ y ∈ l, x = y := by
  induction l with
  | nil => simp [gaps]
  | cons a l ih =>
    cases l with
    | nil => simp
    | cons b l =>
      rw [gaps_cons_cons, List.forall_mem_cons, ih, sub_eq_zero]
      constructor
      case mp =>
        rintro ⟨rfl, hall⟩ x hx y hy
        have hdrop : ∀ z ∈ b :: b :: l, z ∈ b :: l := by
          intro z hz
          simpa using hz
        exact hall x (hdrop x hx) y (hdrop y hy)
      case mpr =>
        intro hall
        refine ⟨hall b (by simp) a (by simp), ?_⟩
        intro x hx y hy
        exact hall x (List.mem_cons_of_mem a hx) y (List.mem_cons_of_mem a hy)

/-- What holds of every gap holds of the differences along the list. -/
theorem forall_gaps_iff (l : List G) (P : G → Prop) :
    (∀ d ∈ gaps l, P d) ↔ l.IsChain fun a b ↦ P (b - a) := by
  induction l with
  | nil => simp [gaps]
  | cons a l ih =>
    cases l with
    | nil => simp
    | cons b l => rw [gaps_cons_cons, List.forall_mem_cons, ih, List.isChain_cons_cons]

end Gaps

/-! ## Running means -/

section RunningMean

variable {K : Type*} [Field K] [LinearOrder K] [IsStrictOrderedRing K]

/-- The mean `j` moves towards each entry by an n-th of the difference. -/
def runningMean (n j : K) (ds : List K) : K := ds.foldl (fun j d ↦ j + (d - j) / n) j

omit [LinearOrder K] [IsStrictOrderedRing K] in
private theorem move_eq {n : K} (hn : n ≠ 0) (j d : K) : j + (d - j) / n = ((n - 1) * j + d) / n := by
  field_simp
  ring

private theorem move_mem {n j d low high : K} (hn : 1 ≤ n) (hj : low ≤ j ∧ j ≤ high)
    (hd : low ≤ d ∧ d ≤ high) : low ≤ j + (d - j) / n ∧ j + (d - j) / n ≤ high := by
  have hpos : 0 < n := lt_of_lt_of_le one_pos hn
  rw [move_eq hpos.ne', le_div_iff₀ hpos, div_le_iff₀ hpos]
  have hrest : 0 ≤ n - 1 := sub_nonneg.mpr hn
  constructor
  · calc low * n = (n - 1) * low + low := by ring
      _ ≤ (n - 1) * j + d := add_le_add (mul_le_mul_of_nonneg_left hj.1 hrest) hd.1
  · calc (n - 1) * j + d ≤ (n - 1) * high + high :=
          add_le_add (mul_le_mul_of_nonneg_left hj.2 hrest) hd.2
      _ = high * n := by ring

/-- A running mean keeps to the bounds of its start and its entries. -/
theorem runningMean_mem {n low high : K} (hn : 1 ≤ n) (ds : List K)
    (hds : ∀ d ∈ ds, low ≤ d ∧ d ≤ high) {j : K} (hj : low ≤ j ∧ j ≤ high) :
    low ≤ runningMean n j ds ∧ runningMean n j ds ≤ high := by
  induction ds generalizing j with
  | nil => exact hj
  | cons d ds ih =>
    exact ih (fun e he ↦ hds e (List.mem_cons_of_mem d he))
      (move_mem hn hj (hds d List.mem_cons_self))

private theorem runningMean_pos {n : K} (hn : 1 < n) (ds : List K) (hds : ∀ d ∈ ds, 0 ≤ d) {j : K}
    (hj : 0 < j) : 0 < runningMean n j ds := by
  induction ds generalizing j with
  | nil => exact hj
  | cons d ds ih =>
    have hpos : 0 < n := one_pos.trans hn
    have hmoved : 0 < j + (d - j) / n := by
      rw [move_eq hpos.ne']
      exact div_pos (add_pos_of_pos_of_nonneg (mul_pos (sub_pos.mpr hn) hj)
        (hds d List.mem_cons_self)) hpos
    exact ih (fun e he ↦ hds e (List.mem_cons_of_mem d he)) hmoved

/-- The running mean of entries that are not negative is zero exactly when they all are. -/
theorem runningMean_eq_zero_iff {n : K} (hn : 1 < n) (ds : List K) (hds : ∀ d ∈ ds, 0 ≤ d) :
    runningMean n 0 ds = 0 ↔ ∀ d ∈ ds, d = 0 := by
  induction ds with
  | nil => simp [runningMean]
  | cons d ds ih =>
    have hrest : ∀ e ∈ ds, 0 ≤ e := fun e he ↦ hds e (List.mem_cons_of_mem d he)
    have hd : 0 ≤ d := hds d List.mem_cons_self
    have hstep : runningMean n 0 (d :: ds) = runningMean n (d / n) ds := by
      simp [runningMean]
    rw [hstep, List.forall_mem_cons]
    rcases hd.eq_or_lt with rfl | hpos
    · rw [zero_div, ih hrest]
      simp
    · have hmoved := runningMean_pos hn ds hrest (div_pos hpos (one_pos.trans hn))
      constructor
      · intro hzero
        exact absurd hzero hmoved.ne'
      · rintro ⟨hzero, _⟩
        exact absurd hzero hpos.ne'

end RunningMean

end HzjDds.Series
