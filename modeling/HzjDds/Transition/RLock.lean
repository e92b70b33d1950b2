import Mathlib.Data.Nat.Notation
import Mathlib.Logic.Basic
import Mathlib.Tactic.ByContra

/-!
# Reentrant locks

Library `Transition`. A reentrant lock is free or held by one thread, which may hold it
more than once. The count of a thread is how often it holds the lock; at most one thread
has a count above zero, because a held lock stores its owner.
-/

namespace HzjDds.Transition

universe u

/-- A reentrant lock: free, or held by `owner` once and `extra` further times. -/
inductive RLock (τ : Type u) where
  | free
  | held (owner : τ) (extra : ℕ)
  deriving DecidableEq, Repr

namespace RLock

variable {τ : Type u} [DecidableEq τ]

/-- Take the lock once more; `none` while another thread holds it. -/
def acquire : RLock τ → τ → Option (RLock τ)
  | free, t => some (held t 0)
  | held owner extra, t => if owner = t then some (held owner (extra + 1)) else none

/-- Give the lock back once; `none` when the thread does not hold it. -/
def release : RLock τ → τ → Option (RLock τ)
  | free, _ => none
  | held owner 0, t => if owner = t then some free else none
  | held owner (extra + 1), t => if owner = t then some (held owner extra) else none

/-- How often a thread holds the lock. -/
def count : RLock τ → τ → ℕ
  | free, _ => 0
  | held owner extra, t => if owner = t then extra + 1 else 0

@[simp] theorem count_free (t : τ) : (free : RLock τ).count t = 0 := rfl

/-- Only one thread holds the lock. -/
theorem eq_of_count {l : RLock τ} {t u : τ} (ht : l.count t ≠ 0) (hu : l.count u ≠ 0) :
    t = u := by
  cases l with
  | free => exact (ht rfl).elim
  | held owner extra =>
    have ho : owner = t := by
      by_contra h
      simp [count, h] at ht
    have hu' : owner = u := by
      by_contra h
      simp [count, h] at hu
    rw [← ho, hu']

/-- A thread that holds the lock keeps every other count at zero. -/
theorem count_eq_zero_of_ne {l : RLock τ} {t u : τ} (ht : l.count t ≠ 0) (hne : u ≠ t) :
    l.count u = 0 := by
  by_contra hu
  exact hne (eq_of_count hu ht)

/-- Acquiring raises the count of the thread by one and nobody else's. -/
theorem count_acquire {l l' : RLock τ} {t : τ} (h : l.acquire t = some l') (u : τ) :
    l'.count u = if u = t then l.count t + 1 else l.count u := by
  cases l with
  | free =>
    cases h
    by_cases hu : u = t
    · simp [count, hu]
    · simp [count, hu, Ne.symm hu]
  | held owner extra =>
    simp only [acquire] at h
    split at h
    · next ho =>
      cases h
      subst ho
      by_cases hu : u = owner
      · simp [count, hu]
      · simp [count, hu, Ne.symm hu]
    · contradiction

private theorem acquire_of_release {l l' : RLock τ} {t : τ} (h : l.release t = some l') :
    l'.acquire t = some l := by
  cases l with
  | free => contradiction
  | held owner extra =>
    cases extra with
    | zero =>
      simp only [release] at h
      split at h
      · next ho =>
        cases h
        rw [acquire, ho]
      · contradiction
    | succ extra =>
      simp only [release] at h
      split at h
      · next ho =>
        cases h
        rw [acquire, if_pos ho]
      · contradiction

/-- Releasing lowers the count of the thread by one and nobody else's. -/
theorem count_release {l l' : RLock τ} {t : τ} (h : l.release t = some l') (u : τ) :
    l.count u = if u = t then l'.count t + 1 else l'.count u :=
  count_acquire (acquire_of_release h) u

/-- A lock that was acquired was free, or held by the same thread. -/
theorem free_or_count_of_acquire {l l' : RLock τ} {t : τ} (h : l.acquire t = some l') :
    l = free ∨ l.count t ≠ 0 := by
  cases l with
  | free => exact Or.inl rfl
  | held owner extra =>
    simp only [acquire] at h
    split at h
    · next ho => exact Or.inr (by simp [count, ho])
    · contradiction

end RLock

end HzjDds.Transition
