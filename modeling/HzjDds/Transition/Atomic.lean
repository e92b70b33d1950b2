import HzjDds.Transition.Simulation
import Mathlib.Logic.Function.Basic

/-!
# Objects whose calls take effect at once

Library `Transition`. A call of an atomic object takes effect at one moment between its invocation
and its response. Another object implements it when each of its steps is matched by steps of the
atomic object with the same invocations and responses; then every run of it is linearizable: the
calls can be put in an order of effects that respects real time and explains every response.
-/

namespace HzjDds.Transition

universe u v w x y z

/-- An object with calls `ι` and responses `ρ`, and its calls in progress: those that have taken
effect have their response. -/
structure Atomic (θ : Type u) (σ : Type v) (ι : Type w) (ρ : Type x) where
  object : σ
  calls : θ → Option (ι × Option ρ) := fun _ ↦ none

/-- A thread invokes a call, its call takes effect, or it responds. The effect may depend on a
choice of the environment. -/
inductive AtomicAction (θ : Type u) (γ : Type v) (ι : Type w) (ρ : Type x) where
  | invoke (thread : θ) (call : ι)
  | effect (thread : θ) (choice : γ)
  | respond (thread : θ) (response : ρ)

/-- What can be seen of an object from outside. -/
inductive CallEvent (θ : Type u) (ι : Type w) (ρ : Type x) where
  | invoke (thread : θ) (call : ι)
  | respond (thread : θ) (response : ρ)
  deriving DecidableEq, Repr

variable {θ : Type u} {σ : Type v} {ι : Type w} {ρ : Type x} {γ : Type y} {τ : Type z} {α : Type*}

/-- What can be seen of an action. -/
def AtomicAction.event : AtomicAction θ γ ι ρ → Option (CallEvent θ ι ρ)
  | invoke t call => some (.invoke t call)
  | effect _ _ => none
  | respond t response => some (.respond t response)

namespace Atomic

variable [DecidableEq θ] [DecidableEq ρ]

/-- One step; `apply` is what a call does to the object, and its response. -/
def step (apply : σ → ι → γ → σ × ρ) (m : Atomic θ σ ι ρ) :
    AtomicAction θ γ ι ρ → Option (Atomic θ σ ι ρ)
  | .invoke t call =>
    match m.calls t with
    | none => some { m with calls := Function.update m.calls t (some (call, none)) }
    | some _ => none
  | .effect t choice =>
    match m.calls t with
    | some (call, none) =>
      let (object, response) := apply m.object call choice
      some ⟨object, Function.update m.calls t (some (call, some response))⟩
    | _ => none
  | .respond t response =>
    match m.calls t with
    | some (_, some answer) =>
      if answer = response then some { m with calls := Function.update m.calls t none } else none
    | _ => none

variable {apply : σ → ι → γ → σ × ρ} {m m' : Atomic θ σ ι ρ}

/-- A thread without a call can make one. -/
theorem step_invoke {t : θ} (h : m.calls t = none) (call : ι) :
    step apply m (.invoke t call) =
      some { m with calls := Function.update m.calls t (some (call, none)) } := by
  simp [step, h]

/-- A call that has not taken effect can take it. -/
theorem step_effect {t : θ} {call : ι} (h : m.calls t = some (call, none)) (choice : γ) :
    step apply m (.effect t choice) = some ⟨(apply m.object call choice).1,
      Function.update m.calls t (some (call, some (apply m.object call choice).2))⟩ := by
  simp [step, h]

/-- A call that has taken effect can respond. -/
theorem step_respond {t : θ} {call : ι} {response : ρ} (h : m.calls t = some (call, some response)) :
    step apply m (.respond t response) =
      some { m with calls := Function.update m.calls t none } := by
  simp [step, h]

/-- Calls that one thread makes after the other. -/
def applyAll (apply : σ → ι → γ → σ × ρ) (s : σ) (calls : List (ι × γ)) : σ :=
  calls.foldl (fun s call ↦ (apply s call.1 call.2).1) s

/-- The object is in a state that calls one after the other lead to. -/
theorem exists_applyAll (bs : List (AtomicAction θ γ ι ρ)) (hs : run (step apply) m bs = some m') :
    ∃ calls, m'.object = applyAll apply m.object calls := by
  induction bs using List.reverseRecOn generalizing m' with
  | nil =>
    cases hs
    exact ⟨[], rfl⟩
  | append_singleton bs b ih =>
    obtain ⟨n, hn, hb⟩ := run_concat_eq_some.mp hs
    obtain ⟨calls, hcalls⟩ := ih hn
    cases b with
    | invoke t call =>
      simp only [step] at hb
      split at hb <;> cases hb
      exact ⟨calls, hcalls⟩
    | effect t choice =>
      simp only [step] at hb
      split at hb <;> cases hb
      next call _ => exact ⟨calls ++ [(call, choice)], by simp [applyAll, hcalls, List.foldl_append]⟩
    | respond t response =>
      simp only [step] at hb
      split at hb
      · split at hb <;> cases hb
        exact ⟨calls, hcalls⟩
      · contradiction

end Atomic

/-! ## Implementations -/

variable [DecidableEq θ] [DecidableEq ρ]

/-- Each step is matched by steps of the atomic object that look the same from outside. -/
def Implements (step : τ → α → Option τ) (event : τ → α → Option (CallEvent θ ι ρ))
    (apply : σ → ι → γ → σ × ρ) (R : τ → Atomic θ σ ι ρ → Prop) : Prop :=
  ∀ s a s' m, R s m → step s a = some s' → ∃ bs m', run (Atomic.step apply) m bs = some m' ∧
    bs.filterMap AtomicAction.event = (event s a).toList ∧ R s' m'

variable {step : τ → α → Option τ} {event : τ → α → Option (CallEvent θ ι ρ)}
  {apply : σ → ι → γ → σ × ρ} {R : τ → Atomic θ σ ι ρ → Prop} {s s' : τ} {m : Atomic θ σ ι ρ}

/-- What is seen of a run. -/
def events (step : τ → α → Option τ) (event : τ → α → Option (CallEvent θ ι ρ)) (s : τ)
    (as : List α) : List (CallEvent θ ι ρ) :=
  emitted step (fun s a ↦ (event s a).toList) s as

/-- A run is matched by a run that looks the same. -/
theorem Implements.run (h : Implements step event apply R) {as : List α} (hR : R s m)
    (hs : run step s as = some s') :
    ∃ bs m', Transition.run (Atomic.step apply) m bs = some m' ∧
      bs.filterMap AtomicAction.event = events step event s as ∧ R s' m' := by
  induction as generalizing s m with
  | nil =>
    cases hs
    exact ⟨[], m, rfl, rfl, hR⟩
  | cons a as ih =>
    rw [run_cons] at hs
    obtain ⟨t, ht, hs⟩ := Option.bind_eq_some_iff.mp hs
    obtain ⟨bs, n, hn, hbs, hRt⟩ := h s a t m hR ht
    obtain ⟨cs, m', hm', hcs, hR'⟩ := ih hRt hs
    refine ⟨bs ++ cs, m', ?_, ?_, hR'⟩
    · rw [run_append, hn]
      exact hm'
    · rw [List.filterMap_append, hbs, hcs]
      simp [events, emitted, ht]

end HzjDds.Transition
