import HzjDds.Python.Raises
import Mathlib.Data.Int.Notation
import Mathlib.Data.Nat.Notation

/-!
# Indexing a list

Library `Python`. `xs[i]` counts a negative index from the end of the list, and raises `IndexError`
outside of it.
-/

namespace HzjDds.Python

variable {α : Type}

/-- The exception of an index outside of a list. -/
def indexError : Raised := .other "list index out of range"

/-- `xs[i]`. -/
def getItem (xs : List α) (i : ℤ) : Call α :=
  let n := if i < 0 then i + xs.length else i
  if n < 0 then .error indexError
  else
    match xs[n.toNat]? with
    | none => .error indexError
    | some x => .ok x

/-- An index inside of a list does not raise. -/
theorem getItem_natCast {xs : List α} {n : ℕ} (hn : n < xs.length) :
    getItem xs n = .ok xs[n] := by
  have hnonneg : ¬ (n : ℤ) < 0 := by omega
  simp only [getItem, if_neg hnonneg, Int.toNat_natCast, List.getElem?_eq_getElem hn]

/-- The last entry of a list. -/
theorem getItem_neg_one {xs : List α} (hxs : xs ≠ []) :
    getItem xs (-1) = getItem xs ((xs.length - 1 : ℕ) : ℤ) := by
  have hlength : 0 < xs.length := List.length_pos_iff.mpr hxs
  have hlast : -1 + (xs.length : ℤ) = ((xs.length - 1 : ℕ) : ℤ) := by omega
  have hnonneg : ¬ ((xs.length - 1 : ℕ) : ℤ) < 0 := by omega
  simp only [getItem, if_pos (show (-1 : ℤ) < 0 by omega), if_neg hnonneg, hlast]

end HzjDds.Python
