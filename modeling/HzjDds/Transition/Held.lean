import Mathlib.Logic.Function.Basic

/-!
# Who holds what

Library `Transition`. One value of a family is replaced, and the others stay. A mutex names the thread
that holds it; what one thread holds, nobody else holds.
-/

namespace HzjDds.Transition

universe u v w

section Update

variable {ι : Type u} {α : Type v} {β : Sort w} [DecidableEq ι] {f : ι → α} {i j : ι} {a b : α}

/-- What the new value has as the old one had it, every value has as before. -/
theorem apply_update_of_eq (g : α → β) (h : g a = g (f i)) (j : ι) :
    g (Function.update f i a j) = g (f j) := by
  rcases eq_or_ne j i with rfl | hne
  · rw [Function.update_self, h]
  · rw [Function.update_of_ne hne]

/-- A value other than the one that is replaced stays. -/
theorem update_eq_of_eq (hj : f j = b) (hne : b ≠ f i) : Function.update f i a j = b := by
  have hji : j ≠ i := by
    rintro rfl
    exact hne hj.symm
  rw [Function.update_of_ne hji, hj]

/-- A value other than the new one was there before, elsewhere. -/
theorem ne_and_eq_of_update_eq (h : Function.update f i a j = b) (hne : a ≠ b) :
    j ≠ i ∧ f j = b := by
  have hji : j ≠ i := by
    rintro rfl
    rw [Function.update_self] at h
    exact hne h
  exact ⟨hji, by rwa [Function.update_of_ne hji] at h⟩

end Update

variable {θ : Type u} {ρ : Type v}

/-- What a thread holds, nobody else holds. -/
def Alone (holds : θ → Option ρ) : Prop :=
  ∀ r t u, holds t = some r → holds u = some r → t = u

/-- A thread lets go of what it holds, or holds what nobody else has held. -/
theorem Alone.move {holds holds' : θ → Option ρ} (h : Alone holds) {t : θ}
    (hothers : ∀ u, u ≠ t → holds' u = holds u)
    (hself : ∀ r, holds' t = some r → ∀ u, holds u = some r → u = t) : Alone holds' := by
  intro r u v hu hv
  rcases eq_or_ne u t with rfl | hut
  · rcases eq_or_ne v u with rfl | hvu
    · rfl
    · rw [hothers v hvu] at hv
      exact (hself r hu v hv).symm
  · rw [hothers u hut] at hu
    rcases eq_or_ne v t with rfl | hvt
    · exact hself r hv u hu
    · rw [hothers v hvt] at hv
      exact h r u v hu hv

/-- The mutex of each resource names the thread that holds it. -/
def HeldBy (mutex : ρ → Option θ) (holds : θ → Option ρ) : Prop :=
  ∀ r t, mutex r = some t ↔ holds t = some r

variable {mutex mutex' : ρ → Option θ} {holds holds' : θ → Option ρ} {r : ρ} {t : θ}

/-- Nobody takes a mutex or gives one back. -/
theorem HeldBy.congr (h : HeldBy mutex holds) (hmutex : ∀ r, mutex' r = mutex r)
    (hholds : ∀ t, holds' t = holds t) : HeldBy mutex' holds' := by
  intro r t
  rw [hmutex, hholds]
  exact h r t

/-- A thread that holds no mutex takes one that is free. -/
theorem HeldBy.take (h : HeldBy mutex holds) (hfree : mutex r = none) (hnone : holds t = none)
    (hr : mutex' r = some t) (hmutex : ∀ q, q ≠ r → mutex' q = mutex q) (ht : holds' t = some r)
    (hholds : ∀ u, u ≠ t → holds' u = holds u) : HeldBy mutex' holds' := by
  intro q u
  rcases eq_or_ne q r with rfl | hqr
  · rcases eq_or_ne u t with rfl | hut
    · exact iff_of_true hr ht
    · rw [hr, hholds u hut, ← h q u, hfree]
      exact iff_of_false (fun htu ↦ hut (Option.some.inj htu).symm) (by simp)
  · rw [hmutex q hqr, h q u]
    rcases eq_or_ne u t with rfl | hut
    · rw [hnone, ht]
      exact iff_of_false (by simp) fun hrq ↦ hqr (Option.some.inj hrq).symm
    · rw [hholds u hut]

/-- A thread gives its mutex back. -/
theorem HeldBy.give (h : HeldBy mutex holds) (hheld : holds t = some r) (hr : mutex' r = none)
    (hmutex : ∀ q, q ≠ r → mutex' q = mutex q) (ht : holds' t = none)
    (hholds : ∀ u, u ≠ t → holds' u = holds u) : HeldBy mutex' holds' := by
  intro q u
  rcases eq_or_ne q r with rfl | hqr
  · rw [hr]
    refine iff_of_false (by simp) fun hu ↦ ?_
    have hut : u ≠ t := by
      rintro rfl
      rw [ht] at hu
      cases hu
    rw [hholds u hut] at hu
    have hsame : some u = some t := ((h q u).mpr hu).symm.trans ((h q t).mpr hheld)
    exact hut (Option.some.inj hsame)
  · rw [hmutex q hqr, h q u]
    rcases eq_or_ne u t with rfl | hut
    · rw [hheld, ht]
      exact iff_of_false (fun hrq ↦ hqr (Option.some.inj hrq).symm) (by simp)
    · rw [hholds u hut]

end HzjDds.Transition
