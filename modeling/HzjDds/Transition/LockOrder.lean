import Mathlib.Order.Basic
import Mathlib.Tactic.Push

/-!
# Locks that are taken in an order

Library `Transition`. When every thread that holds a lock waits for locks of a higher rank alone, a
chain of threads that wait for each other ends at one that does not wait.
-/

namespace HzjDds.Transition

universe u v

variable {θ : Type u} {ρ : Type v}

/-- Some thread finds its lock free or needs none: the thread itself, or one that holds a lock. -/
theorem exists_unblocked {rank : ρ → ℕ} {n : ℕ} (hrank : ∀ r, rank r ≤ n) {holder : ρ → Option θ}
    {waits : θ → Option ρ}
    (horder : ∀ r r' u, holder r = some u → waits u = some r' → rank r < rank r') (t : θ) :
    ∃ u, (u = t ∨ ∃ r, holder r = some u) ∧ ∀ r, waits u = some r → holder r = none := by
  -- along the chain of holders from a lock on, by how far the lock is from the highest rank
  have hchain : ∀ k r u, holder r = some u → n - rank r = k →
      ∃ u, (∃ r, holder r = some u) ∧ ∀ r, waits u = some r → holder r = none := by
    intro k
    induction k using Nat.strongRecOn with
    | ind k ih =>
      intro r u hu hk
      by_cases hfree : ∀ r', waits u = some r' → holder r' = none
      · exact ⟨u, ⟨r, hu⟩, hfree⟩
      · push Not at hfree
        obtain ⟨r', hwaits, hheld⟩ := hfree
        obtain ⟨v, hv⟩ := Option.ne_none_iff_exists'.mp hheld
        have hlt := horder r r' u hu hwaits
        have hle := hrank r'
        exact ih (n - rank r') (by omega) r' v hv rfl
  by_cases hfree : ∀ r, waits t = some r → holder r = none
  · exact ⟨t, .inl rfl, hfree⟩
  · push Not at hfree
    obtain ⟨r, -, hheld⟩ := hfree
    obtain ⟨u, hu⟩ := Option.ne_none_iff_exists'.mp hheld
    obtain ⟨v, hv, hfree⟩ := hchain _ r u hu rfl
    exact ⟨v, .inr hv, hfree⟩

end HzjDds.Transition
