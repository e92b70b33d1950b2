import Mathlib.Data.List.Sort
import Mathlib.Order.Lattice

/-!
# Vectors and sets in ascending order

Library `Cpp`. A vector that is kept in the ascending order of a key, as `sorted_vector_insert` keeps
it, and an ordered set, which is such a vector without repetitions. An ascending vector is one whose
keys increase strictly; what precedes `lower_bound` in it is what is less.
-/

namespace HzjDds.Cpp

universe u v

variable {α : Type u} {κ : Type v} [LinearOrder κ] {key : α → κ} {xs : List α} {a b : α}

/-- The keys of a vector increase strictly. -/
def Ascending (key : α → κ) (xs : List α) : Prop := xs.Pairwise fun a b ↦ key a < key b

/-- Insert an element behind those whose key is not greater. -/
def sortedVectorInsert (key : α → κ) : List α → α → List α
  | [], a => [a]
  | b :: bs, a => if key a < key b then a :: b :: bs else b :: sortedVectorInsert key bs a

/-- Up to order, an insertion adds an element. -/
theorem sortedVectorInsert_perm (key : α → κ) (xs : List α) (a : α) :
    (sortedVectorInsert key xs a).Perm (a :: xs) := by
  induction xs with
  | nil => exact List.Perm.refl _
  | cons x xs ih =>
    rw [sortedVectorInsert]
    split
    · exact List.Perm.refl _
    · exact (ih.cons x).trans (List.Perm.swap a x xs)

@[simp] theorem mem_sortedVectorInsert :
    b ∈ sortedVectorInsert key xs a ↔ b = a ∨ b ∈ xs := by
  rw [(sortedVectorInsert_perm key xs a).mem_iff, List.mem_cons]

/-- A vector stays ascending when the key of an element is new. -/
theorem Ascending.sortedVectorInsert (h : Ascending key xs) (hnew : ∀ b ∈ xs, key b ≠ key a) :
    Ascending key (sortedVectorInsert key xs a) := by
  induction xs with
  | nil => simp [Ascending, Cpp.sortedVectorInsert]
  | cons x xs ih =>
    obtain ⟨hx, hxs⟩ := List.pairwise_cons.mp h
    rw [Cpp.sortedVectorInsert]
    split
    · next hlt =>
      refine List.pairwise_cons.mpr ⟨fun b hb ↦ ?_, h⟩
      rcases List.mem_cons.mp hb with rfl | hb
      · exact hlt
      · exact hlt.trans (hx b hb)
    · next hle =>
      have hrest : ∀ b ∈ xs, key b ≠ key a := fun b hb ↦ hnew b (List.mem_cons_of_mem x hb)
      refine List.pairwise_cons.mpr ⟨fun b hb ↦ ?_, ih hxs hrest⟩
      rcases mem_sortedVectorInsert.mp hb with rfl | hb
      · exact lt_of_le_of_ne (not_lt.mp hle) (hnew x List.mem_cons_self)
      · exact hx b hb

/-- A vector stays ascending when an element with a greater key is appended. -/
theorem Ascending.concat (h : Ascending key xs) (hlast : ∀ b ∈ xs, key b < key a) :
    Ascending key (xs ++ [a]) := by
  refine List.pairwise_append.mpr ⟨h, List.pairwise_singleton .., fun b hb c hc ↦ ?_⟩
  rw [List.mem_singleton.mp hc]
  exact hlast b hb

/-- An ascending vector has no two elements with one key. -/
theorem Ascending.eq_of_key_eq (h : Ascending key xs) (ha : a ∈ xs) (hb : b ∈ xs)
    (hkey : key a = key b) : a = b := by
  induction xs with
  | nil => cases ha
  | cons x xs ih =>
    obtain ⟨hx, hxs⟩ := List.pairwise_cons.mp h
    rcases List.mem_cons.mp ha with rfl | ha'
    · rcases List.mem_cons.mp hb with rfl | hb'
      · rfl
      · exact absurd hkey (hx b hb').ne
    · rcases List.mem_cons.mp hb with rfl | hb'
      · exact absurd hkey (hx a ha').ne'
      · exact ih hxs ha' hb'

/-- What precedes `lower_bound`. -/
theorem Ascending.mem_takeWhile (h : Ascending key xs) {k : κ} :
    b ∈ xs.takeWhile (key · < k) ↔ b ∈ xs ∧ key b < k := by
  induction xs with
  | nil => simp
  | cons x xs ih =>
    obtain ⟨hx, hxs⟩ := List.pairwise_cons.mp h
    rw [List.takeWhile_cons]
    split
    · next hlt =>
      rw [List.mem_cons, List.mem_cons, ih hxs]
      constructor
      · rintro (rfl | ⟨hb, hlt⟩)
        · exact ⟨.inl rfl, of_decide_eq_true hlt⟩
        · exact ⟨.inr hb, hlt⟩
      · rintro ⟨rfl | hb, hlt⟩
        · exact .inl rfl
        · exact .inr ⟨hb, hlt⟩
    · next hle =>
      have hle : k ≤ key x := not_lt.mp (of_decide_eq_false (Bool.not_eq_true _ ▸ hle))
      refine iff_of_false List.not_mem_nil ?_
      rintro ⟨hb, hlt⟩
      rcases List.mem_cons.mp hb with rfl | hb
      · exact hle.not_gt hlt
      · exact (hle.trans_lt (hx b hb)).not_gt hlt

/-- What `lower_bound` finds, and what follows. -/
theorem Ascending.mem_dropWhile (h : Ascending key xs) {k : κ} :
    b ∈ xs.dropWhile (key · < k) ↔ b ∈ xs ∧ k ≤ key b := by
  induction xs with
  | nil => simp
  | cons x xs ih =>
    obtain ⟨hx, hxs⟩ := List.pairwise_cons.mp h
    rw [List.dropWhile_cons]
    split
    · next hlt =>
      rw [ih hxs, List.mem_cons]
      refine and_congr_left fun hle ↦ (or_iff_right ?_).symm
      rintro rfl
      exact hle.not_gt (of_decide_eq_true hlt)
    · next hle =>
      have hle : k ≤ key x := not_lt.mp (of_decide_eq_false (Bool.not_eq_true _ ▸ hle))
      refine (and_iff_left_of_imp fun hb ↦ ?_).symm
      rcases List.mem_cons.mp hb with rfl | hb
      · exact hle
      · exact hle.trans (hx b hb).le

/-- A part of an ascending vector is ascending. -/
theorem Ascending.sublist {ys : List α} (h : Ascending key xs) (hsub : ys.Sublist xs) :
    Ascending key ys :=
  List.Pairwise.sublist hsub h

/-- Two ascending vectors of the same elements are one. -/
theorem Ascending.eq_of_mem_iff {ys : List α} (hxs : Ascending key xs) (hys : Ascending key ys)
    (h : ∀ a, a ∈ xs ↔ a ∈ ys) : xs = ys := by
  have : Std.Irrefl fun a b ↦ key a < key b := ⟨fun a ↦ lt_irrefl (key a)⟩
  have : Std.Antisymm fun a b ↦ key a < key b := ⟨fun _ _ hlt hgt ↦ absurd hlt hgt.not_gt⟩
  exact List.Pairwise.eq_of_mem_iff hxs hys h

section Set

variable {ks : List κ} {k l : κ}

/-- Insert an element into an ordered set. -/
def setInsert (ks : List κ) (k : κ) : List κ :=
  if k ∈ ks then ks else sortedVectorInsert id ks k

/-- What is in a set after an insertion. -/
@[simp] theorem mem_setInsert : l ∈ setInsert ks k ↔ l = k ∨ l ∈ ks := by
  rw [setInsert]
  split
  · next hk => exact ⟨.inr, by rintro (rfl | hl) <;> assumption⟩
  · exact mem_sortedVectorInsert

/-- A set stays ascending. -/
theorem Ascending.setInsert (h : Ascending id ks) : Ascending id (setInsert ks k) := by
  rw [Cpp.setInsert]
  split
  · exact h
  · next hk =>
    refine h.sortedVectorInsert ?_
    rintro l hl rfl
    exact hk hl

end Set

end HzjDds.Cpp
