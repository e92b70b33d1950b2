import HzjDds.Transition.Run

/-!
# Forward simulation between programs

Library `Transition`. Each step of one program is matched by actions of another, which keep the two
states related; then each run of the first is matched by a run of the second. A condition on the
runs of the first may promise one on the runs of the second.
-/

namespace HzjDds.Transition

universe u v w x

variable {σ : Type u} {α : Type v} {τ : Type w} {β : Type x}

/-- The actions of the other program that match a run. -/
def emitted (step : σ → α → Option σ) (emits : σ → α → List β) (s : σ) : List α → List β
  | [] => []
  | a :: as => emits s a ++ ((step s a).map fun t ↦ emitted step emits t as).getD []

/-- A step that meets its condition is matched by actions that meet theirs. -/
def Simulates (step : σ → α → Option σ) (ok : σ → α → Prop) (step' : τ → β → Option τ)
    (ok' : τ → β → Prop) (R : σ → τ → Prop) (emits : σ → α → List β) : Prop :=
  ∀ s a s' t, R s t → ok s a → step s a = some s' →
    ∃ t', run step' t (emits s a) = some t' ∧ AllSteps step' ok' t (emits s a) ∧ R s' t'

variable {step : σ → α → Option σ} {ok : σ → α → Prop} {step' : τ → β → Option τ}
  {ok' : τ → β → Prop} {R : σ → τ → Prop} {emits : σ → α → List β} {s s' : σ} {t : τ}

/-- One list of actions meets a condition, then another one. -/
theorem AllSteps.append {as bs : List α} (has : AllSteps step ok s as)
    (hbs : ∀ t, run step s as = some t → AllSteps step ok t bs) :
    AllSteps step ok s (as ++ bs) := by
  induction as generalizing s with
  | nil => exact hbs s rfl
  | cons a as ih =>
    refine allSteps_cons.mpr fun t ht ↦ ?_
    obtain ⟨ha, has⟩ := allSteps_cons.mp has t ht
    refine ⟨ha, ih has fun u hu ↦ hbs u ?_⟩
    rw [run_cons, ht]
    exact hu

/-- A run is matched by a run. -/
theorem Simulates.run (h : Simulates step ok step' ok' R emits) {as : List α} (hR : R s t)
    (hok : AllSteps step ok s as) (hs : run step s as = some s') :
    ∃ t', Transition.run step' t (emitted step emits s as) = some t' ∧
      AllSteps step' ok' t (emitted step emits s as) ∧ R s' t' := by
  induction as generalizing s t with
  | nil =>
    cases hs
    exact ⟨t, rfl, allSteps_nil, hR⟩
  | cons a as ih =>
    rw [run_cons] at hs
    obtain ⟨m, hm, hs⟩ := Option.bind_eq_some_iff.mp hs
    obtain ⟨ha, has⟩ := allSteps_cons.mp hok m hm
    obtain ⟨n, hn, hfirst, hRm⟩ := h s a m t hR ha hm
    obtain ⟨t', ht', hrest, hR'⟩ := ih hRm has hs
    have hemitted : emitted step emits s (a :: as) = emits s a ++ emitted step emits m as := by
      simp [emitted, hm]
    refine ⟨t', ?_, ?_, hR'⟩
    · rw [hemitted, run_append, hn]
      exact ht'
    · rw [hemitted]
      refine hfirst.append fun n' hn' ↦ ?_
      cases hn.symm.trans hn'
      exact hrest

end HzjDds.Transition
