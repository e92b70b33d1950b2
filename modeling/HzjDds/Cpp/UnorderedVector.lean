import Mathlib.Data.List.Perm.Basic

/-!
# Vectors without an order

Library `Cpp`. A vector whose elements may move when one of them is removed, as the containers do
that keep no order of insertion: the last element fills the gap. Only membership and multiplicity
are meant by such a vector.
-/

namespace HzjDds.Cpp

universe u

variable {α : Type u} [DecidableEq α] {xs : List α} {a b : α}

/-- Remove the first match; the last element takes its place. -/
def remove (xs : List α) (a : α) : List α :=
  if a ∈ xs then (xs.set (xs.idxOf a) (xs.getLast?.getD a)).dropLast else xs

/-- Remove the first match and add the element at the end. -/
def renew (xs : List α) (a : α) : List α := remove xs a ++ [a]

private theorem remove_perm (xs : List α) (a : α) : (remove xs a).Perm (xs.erase a) := by
  by_cases hmem : a ∈ xs
  · obtain ⟨before, after, rfl, hbefore⟩ := List.eq_append_cons_of_mem hmem
    rw [remove, if_pos hmem, List.idxOf_append_of_notMem hbefore, List.idxOf_cons_self,
      List.erase_append_right _ hbefore, List.erase_cons_head, Nat.add_zero,
      List.set_append_right _ _ (Nat.le_refl _), Nat.sub_self, List.set_cons_zero]
    rcases List.eq_nil_or_concat after with rfl | ⟨init, last, rfl⟩
    · simp
    · have hlast : (before ++ a :: (init ++ [last])).getLast? = some last := by
        rw [← List.cons_append, ← List.append_assoc, List.getLast?_concat]
      rw [List.concat_eq_append, hlast, Option.getD_some, ← List.cons_append, ← List.append_assoc,
        List.dropLast_concat]
      exact (List.perm_append_singleton last init).symm.append_left before
  · rw [remove, if_neg hmem, List.erase_of_not_mem hmem]

/-- A removal keeps a vector free of repetitions. -/
theorem nodup_remove (h : xs.Nodup) (a : α) : (remove xs a).Nodup :=
  (remove_perm xs a).nodup_iff.mpr (h.erase a)

/-- What is left after a removal. -/
theorem mem_remove (h : xs.Nodup) : b ∈ remove xs a ↔ b ≠ a ∧ b ∈ xs := by
  rw [(remove_perm xs a).mem_iff, h.mem_erase_iff]

/-- A renewed element is there, and so are the others. -/
@[simp] theorem mem_renew : b ∈ renew xs a ↔ b ∈ xs ∨ b = a := by
  rw [renew, List.mem_append, (remove_perm xs a).mem_iff, List.mem_singleton]
  by_cases hb : b = a
  · simp [hb]
  · rw [List.mem_erase_of_ne hb]

/-- Renewing an element repeats none. -/
theorem nodup_renew (h : xs.Nodup) (a : α) : (renew xs a).Nodup := by
  rw [renew, List.nodup_append]
  refine ⟨nodup_remove h a, by simp, fun b hb c hc ↦ ?_⟩
  rw [List.mem_singleton.mp hc]
  exact ((mem_remove h).mp hb).1

example : remove [1, 2, 3, 4] 2 = [1, 4, 3] := by decide

end HzjDds.Cpp
