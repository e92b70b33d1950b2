import HzjDds.Cpp.OrderedVector
import Mathlib.Order.Nat

/-!
# Ranges of numbers in a bitmap

Library `Cpp`. A set of numbers that are no less than a base and differ from it by less than the size
of a bitmap, as `BitmapRange` holds it. The numbers whose bit is set are listed in ascending order.
-/

namespace HzjDds.Cpp

/-- Numbers from `base` on whose bit is set. -/
structure BitmapRange (size : ℕ) where
  base : ℕ
  items : List ℕ
  ascending : Ascending id items
  mem_range : ∀ n ∈ items, base ≤ n ∧ n < base + size

namespace BitmapRange

variable {size n low high : ℕ} {r : BitmapRange size}

/-- A range in which no bit is set. -/
@[simps] def empty (size base : ℕ) : BitmapRange size where
  base := base
  items := []
  ascending := List.Pairwise.nil
  mem_range := fun _ h ↦ absurd h List.not_mem_nil

/-- Set the bit of a number that is in the range. -/
@[simps base] def add (r : BitmapRange size) (n : ℕ) : BitmapRange size where
  base := r.base
  items := if r.base ≤ n ∧ n < r.base + size then setInsert r.items n else r.items
  ascending := by
    split
    · exact r.ascending.setInsert
    · exact r.ascending
  mem_range := by
    intro m hm
    split at hm
    · next hn =>
      rcases mem_setInsert.mp hm with rfl | hm
      · exact hn
      · exact r.mem_range m hm
    · exact r.mem_range m hm

/-- Set the bits of the numbers from `low` to before `high` that are in the range. -/
def addRange (r : BitmapRange size) (low high : ℕ) : BitmapRange size :=
  (List.range' (max r.base low) (min high (r.base + size) - max r.base low)).foldl add r

/-- Largest number, if there is one. -/
def max? (r : BitmapRange size) : Option ℕ := r.items.getLast?

private theorem mem_add {m : ℕ} :
    m ∈ (r.add n).items ↔ m ∈ r.items ∨ m = n ∧ r.base ≤ n ∧ n < r.base + size := by
  simp only [add]
  split
  · next hn => simp [hn, or_comm]
  · next hn => simp [hn]

private theorem foldl_add_base (ns : List ℕ) : (ns.foldl add r).base = r.base := by
  induction ns generalizing r with
  | nil => rfl
  | cons n ns ih => rw [List.foldl_cons, ih, add_base]

@[simp] theorem addRange_base : (r.addRange low high).base = r.base := foldl_add_base _

private theorem mem_foldl_add {ns : List ℕ} {m : ℕ} : m ∈ (ns.foldl add r).items ↔
    m ∈ r.items ∨ m ∈ ns ∧ r.base ≤ m ∧ m < r.base + size := by
  induction ns generalizing r with
  | nil => simp
  | cons n ns ih =>
    rw [List.foldl_cons, ih, mem_add, add_base, List.mem_cons, or_assoc]
    refine or_congr_right ?_
    constructor
    · rintro (⟨rfl, hn⟩ | ⟨hm, hn⟩)
      · exact ⟨.inl rfl, hn⟩
      · exact ⟨.inr hm, hn⟩
    · rintro ⟨rfl | hm, hn⟩
      · exact .inl ⟨rfl, hn⟩
      · exact .inr ⟨hm, hn⟩

/-- The numbers between two bounds are added as far as they are in the range. -/
theorem mem_addRange {m : ℕ} : m ∈ (r.addRange low high).items ↔
    m ∈ r.items ∨ (low ≤ m ∧ m < high) ∧ r.base ≤ m ∧ m < r.base + size := by
  rw [addRange, mem_foldl_add, List.mem_range'_1]
  refine or_congr_right ?_
  omega

end BitmapRange

end HzjDds.Cpp
