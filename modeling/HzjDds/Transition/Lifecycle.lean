import HzjDds.Transition.Run

/-!
# Lifecycle of a started and stopped component

Library `Transition`. The contract of a component that must be started before it is used:
an automaton over its start, stop and use events whose state says whether it runs. A word
of events that the automaton accepts starts and stops in strict alternation, beginning
with a start, and every use of it lies between a start and the next stop.
-/

namespace HzjDds.Transition

universe u

/-- One event in the life of a component. -/
inductive LifecycleEvent (υ : Type u) where
  | start
  | stop
  | use (u : υ)
  deriving DecidableEq, Repr

namespace LifecycleEvent

variable {υ : Type u}

/-- The contract: start when stopped, stop and use when running. -/
def step : Bool → LifecycleEvent υ → Option Bool
  | false, .start => some true
  | true, .stop => some false
  | true, .use _ => some true
  | _, _ => none

/-- The event is a start or a stop. -/
def isSwitch : LifecycleEvent υ → Bool
  | .use _ => false
  | _ => true

/-- The n-th switch of a component that is stopped at first. -/
def switchAt (running : Bool) (n : ℕ) : LifecycleEvent υ :=
  if (n % 2 = 0) = (running = false) then .start else .stop

private theorem switchAt_succ (running : Bool) (n : ℕ) :
    (switchAt running (n + 1) : LifecycleEvent υ) = switchAt (!running) n := by
  unfold switchAt
  rcases Nat.mod_two_eq_zero_or_one n with h | h <;> cases running <;> simp [Nat.add_mod, h]

private theorem eq_switchAt_of_step {running next : Bool} {e : LifecycleEvent υ}
    (hs : step running e = some next) (he : e.isSwitch = true) :
    e = switchAt running 0 ∧ next = !running := by
  cases e with
  | use u => contradiction
  | start =>
    cases running with
    | true => contradiction
    | false => exact ⟨rfl, (Option.some.inj hs).symm⟩
  | stop =>
    cases running with
    | true => exact ⟨rfl, (Option.some.inj hs).symm⟩
    | false => contradiction

private theorem eq_of_step_use {running next : Bool} {e : LifecycleEvent υ}
    (hs : step running e = some next) (he : e.isSwitch = false) : next = running := by
  cases e with
  | use u =>
    cases running with
    | true => exact (Option.some.inj hs).symm
    | false => contradiction
  | start => contradiction
  | stop => contradiction

/-- In an accepted word the starts and stops alternate. -/
theorem switches_alternate {running final : Bool} {word : List (LifecycleEvent υ)}
    (h : run step running word = some final) (n : ℕ) (e : LifecycleEvent υ)
    (he : (word.filter isSwitch)[n]? = some e) : e = switchAt running n := by
  induction word generalizing running n with
  | nil => simp at he
  | cons a word ih =>
    rw [run_cons] at h
    obtain ⟨next, hnext, hrest⟩ := Option.bind_eq_some_iff.mp h
    cases hswitch : a.isSwitch with
    | false =>
      rw [eq_of_step_use hnext hswitch] at hrest
      rw [List.filter_cons_of_neg (by rw [hswitch]; exact Bool.false_ne_true)] at he
      exact ih hrest n he
    | true =>
      obtain ⟨hdue, rfl⟩ := eq_switchAt_of_step hnext hswitch
      rw [List.filter_cons_of_pos hswitch] at he
      cases n with
      | zero =>
        rw [List.getElem?_cons_zero, Option.some.injEq] at he
        rw [← he, hdue]
      | succ n =>
        rw [List.getElem?_cons_succ] at he
        rw [switchAt_succ]
        exact ih hrest n he

/-- An accepted word is running at every use. -/
theorem running_at_use {running final : Bool} {before after : List (LifecycleEvent υ)} {u : υ}
    (h : run step running (before ++ .use u :: after) = some final) :
    run step running before = some true := by
  rw [run_append] at h
  obtain ⟨m, hm, hrest⟩ := Option.bind_eq_some_iff.mp h
  rw [run_cons] at hrest
  obtain ⟨next, hnext, -⟩ := Option.bind_eq_some_iff.mp hrest
  cases m with
  | false => contradiction
  | true => exact hm

end LifecycleEvent

end HzjDds.Transition
