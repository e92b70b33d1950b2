import HzjDds.Transition.Run
import Mathlib.Algebra.BigOperators.Group.Finset.Piecewise
import Mathlib.Tactic.Abel

/-!
# Amounts that the steps of a run take in and give out

Library `Transition`. A system holds an amount, and each step takes some in and gives some out. What
the steps of a run take in is what they give out and what the system holds in the end, less what it
held before. An amount that is spread over threads changes with the thread that takes a step.
-/

namespace HzjDds.Transition

universe u v w

variable {σ : Type u} {α : Type v} {G : Type w} [AddCommGroup G]
  {step : σ → α → Option σ} {amount amount' : σ → α → G} {s t : σ}

/-- What the steps of a run amount to. -/
def total (step : σ → α → Option σ) (amount : σ → α → G) (s : σ) : List α → G
  | [] => 0
  | a :: as => amount s a + ((step s a).map fun t ↦ total step amount t as).getD 0

private theorem total_cons {a : α} (as : List α) (hs : step s a = some t) :
    total step amount s (a :: as) = amount s a + total step amount t as := by
  simp [total, hs]

/-- Two amounts can be told apart. -/
theorem total_add (as : List α) : total step (fun s a ↦ amount s a + amount' s a) s as =
    total step amount s as + total step amount' s as := by
  induction as generalizing s with
  | nil => simp [total]
  | cons a as ih =>
    cases hs : step s a with
    | none => simp [total, hs]
    | some t =>
      rw [total_cons as hs, total_cons as hs, total_cons as hs, ih]
      abel

/-- Steps that amount to nothing add up to nothing. -/
theorem total_eq_zero {as : List α} (h : AllSteps step (fun s a ↦ amount s a = 0) s as)
    (hs : run step s as = some t) : total step amount s as = 0 := by
  induction as generalizing s with
  | nil => rfl
  | cons a as ih =>
    rw [run_cons] at hs
    obtain ⟨m, hm, hs⟩ := Option.bind_eq_some_iff.mp hs
    obtain ⟨ha, has⟩ := allSteps_cons.mp h m hm
    rw [total_cons as hm, ha, ih has hs, zero_add]

/-- Ledger rule: when every step settles its amounts, the run does. -/
theorem ledger {held : σ → G} {into out : σ → α → G}
    (hstep : ∀ s a t, step s a = some t → held t + out s a = held s + into s a)
    {as : List α} (hs : run step s as = some t) :
    held t + total step out s as = held s + total step into s as := by
  induction as generalizing s with
  | nil =>
    cases hs
    rfl
  | cons a as ih =>
    rw [run_cons] at hs
    obtain ⟨m, hm, hs⟩ := Option.bind_eq_some_iff.mp hs
    have ha := hstep s a m hm
    rw [total_cons as hm, total_cons as hm, add_left_comm, ih hs, ← add_assoc,
      add_comm (out s a), ha, add_assoc]

/-- A thread that changes its amount changes the sum by as much. -/
theorem sum_update {θ : Type*} {β : Type*} [Fintype θ] [DecidableEq θ] (amount : β → G)
    (calls : θ → β) (t : θ) (call : β) :
    ∑ u, amount (Function.update calls t call u) + amount (calls t) =
      ∑ u, amount (calls u) + amount call := by
  have hcomp : (fun u ↦ amount (Function.update calls t call u)) =
      Function.update (amount ∘ calls) t (amount call) := Function.comp_update ..
  rw [hcomp, Finset.sum_update_of_mem (Finset.mem_univ t),
    Finset.sum_eq_add_sum_sdiff_singleton_of_mem (Finset.mem_univ t) fun u ↦ amount (calls u)]
  simp only [Function.comp_apply]
  abel

end HzjDds.Transition
