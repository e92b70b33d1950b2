import HzjDds.Rmw.RmwAttached
import Mathlib.Algebra.Order.BigOperators.Group.Finset

/-!
# The calls of `__rmw_wait` come to an end

Library `Rmw`. Source: `vendor/rmw_fastrtps/rmw_fastrtps_shared_cpp/src/rmw_wait.cpp:195–284`. What
holds of the calls of wait sets holds of the calls of `__rmw_wait` that are made of them: they can
all be brought to their end, but those none of whose entities is ready.
-/

namespace HzjDds.Rmw

open HzjDds.Cpp HzjDds.Transition

universe u v

variable {θ : Type u} {ω : Type v} [DecidableEq θ] [DecidableEq ω]

namespace RmwWaits

/-- A state that calls of `__rmw_wait` lead to, each on a wait set of its own. -/
def Reached (conditions : RmwCondition → Condition) (s : RmwWaits θ ω) : Prop :=
  ∃ as, AllSteps step WaitsAlone { sets := { conditions } } as ∧
    run step { sets := { conditions } } as = some s

/-- Threads go on with their calls. -/
theorem Reached.next {conditions : RmwCondition → Condition} {s s' : RmwWaits θ ω}
    (h : Reached conditions s) {ts : List θ} (hs : run step s (ts.map .next) = some s') :
    Reached conditions s' := by
  obtain ⟨as, hok, has⟩ := h
  refine ⟨as ++ ts.map .next, hok.append fun m hm ↦ ?_, by rw [run_append, has]; exact hs⟩
  intro bs a u u' hbs _ _
  obtain ⟨t, -, rfl⟩ := List.mem_map.mp (hbs.subset (List.mem_append_right bs
    (List.mem_singleton_self a)))
  trivial

private theorem run_lift {s : RmwWaits θ ω} {sets : WaitSets θ ω RmwCondition} {ts : List θ}
    (hs : run WaitSets.step s.sets (ts.map .next) = some sets) :
    run step s (ts.map .next) = some { s with sets } := by
  induction ts generalizing s with
  | nil =>
    cases hs
    rfl
  | cons t ts ih =>
    simp only [List.map_cons, run_cons] at hs ⊢
    obtain ⟨m, hm, hs⟩ := Option.bind_eq_some_iff.mp hs
    obtain ⟨pc, hpc, hnext⟩ := Option.bind_eq_some_iff.mp hm
    have hstep : step s (.next t) = some { s with sets := m } := by
      simp only [step, hpc, reduceCtorEq, if_false, lift, WaitSets.step, Option.bind_some, hnext,
        Option.map_some]
    rw [hstep]
    exact ih (s := { s with sets := m }) hs

/-- A step changes the `__rmw_wait` of one thread only. -/
theorem waits_step {s s' : RmwWaits θ ω} {a : RmwWaitsAction θ ω} (hs : step s a = some s') :
    ∃ t, ∀ u, u ≠ t → s'.waits u = s.waits u := by
  cases a with
  | rmw_wait t w entities timed =>
    simp only [step] at hs
    split_ifs at hs
    cases hs
    exact ⟨t, fun u hu ↦ by simp [hu]⟩
  | change t c change =>
    simp only [step] at hs
    split_ifs at hs
    obtain ⟨sets, -, rfl⟩ := Option.map_eq_some_iff.mp hs
    exact ⟨t, fun _ _ ↦ rfl⟩
  | next t =>
    simp only [step] at hs
    split_ifs at hs
    · obtain ⟨r, -, hs⟩ := Option.bind_eq_some_iff.mp hs
      split at hs
      · obtain ⟨sets, -, rfl⟩ := Option.map_eq_some_iff.mp hs
        exact ⟨t, fun u hu ↦ by simp [hu]⟩
      · cases hs
        exact ⟨t, fun u hu ↦ by simp [hu]⟩
    · obtain ⟨sets, -, rfl⟩ := Option.map_eq_some_iff.mp hs
      exact ⟨t, fun _ _ ↦ rfl⟩
  | wakeUp t | timeout t =>
    obtain ⟨sets, -, rfl⟩ := Option.map_eq_some_iff.mp hs
    exact ⟨t, fun _ _ ↦ rfl⟩

/-- Finitely many threads are in `__rmw_wait`, finitely many in a call of a wait set. -/
theorem Reached.exists_callers {conditions : RmwCondition → Condition} {s : RmwWaits θ ω}
    (h : Reached conditions s) : (∃ A : Finset θ, ∀ t, s.waits t ≠ none → t ∈ A) ∧
      ∃ A : Finset θ, ∀ t, s.sets.calls t ≠ none → t ∈ A := by
  obtain ⟨as, hok, hs⟩ := h
  constructor
  · refine Reachable.invariant (I := fun s ↦ ∃ A : Finset θ, ∀ t, s.waits t ≠ none → t ∈ A)
      ⟨∅, by simp⟩ ?_ ⟨as, hs⟩
    rintro s a s' ⟨A, hA⟩ hs
    obtain ⟨t, ht⟩ := waits_step hs
    refine ⟨insert t A, fun u hu ↦ ?_⟩
    by_cases hut : u = t
    · exact Finset.mem_insert.mpr (.inl hut)
    · exact Finset.mem_insert_of_mem (hA u (by rwa [← ht u hut]))
  · have hinit : Sets ({ sets := { conditions } } : RmwWaits θ ω) { conditions } :=
      ⟨rfl, by constructor <;> simp, (WaitSets.orderly_init conditions).linked⟩
    obtain ⟨sets, hsets, -, hs'⟩ := simulates_waitSets.run hinit hok hs
    rw [hs'.sets_eq]
    exact WaitSets.exists_callers ⟨_, hsets⟩

/-- Calls still to make by the threads in `A`. -/
def toGo (A : Finset θ) (s : RmwWaits θ ω) : ℕ :=
  A.sum fun t ↦ ((s.waits t).map RmwWait.left).getD 0

/-- A call of a wait set has returned: `__rmw_wait` makes the next one, or returns. -/
theorem Owned.exists_next {s : RmwWaits θ ω} (h : Owned s) {t : θ} {r : RmwWait ω}
    (hr : s.waits t = some r) (hcall : s.sets.calls t = none) {A : Finset θ} (hA : t ∈ A) :
    ∃ s', step s (.next t) = some s' ∧ (∀ u, u ≠ t → s'.waits u = s.waits u) ∧
      s'.toGo A < s.toGo A := by
  have hless : ∀ s' : RmwWaits θ ω, (∀ u, u ≠ t → s'.waits u = s.waits u) →
      ((s'.waits t).map RmwWait.left).getD 0 < r.left → s'.toGo A < s.toGo A := by
    intro s' hothers hleft
    refine Finset.sum_lt_sum (fun u _ ↦ ?_) ⟨t, hA, by simpa [hr] using hleft⟩
    by_cases hut : u = t
    · rw [hut, hr]
      exact hleft.le
    · rw [hothers u hut]
  cases hnext : r.nextCall with
  | none =>
    have hothers : ∀ u, u ≠ t → (s.setWait t none).waits u = s.waits u := fun u hu ↦ by simp [hu]
    refine ⟨s.setWait t none, by simp [step, hcall, hr, hnext], hothers, hless _ hothers ?_⟩
    obtain ⟨w, entities, timed, rest | _ | rest⟩ := r <;> simp [RmwWait.left]
  | some next =>
    obtain ⟨call, pc⟩ := next
    have hattaches := h.attaches t r hr
    rw [hcall] at hattaches
    have hfits : s.sets.fits call = true := by
      cases call with
      | change c change => cases (hattaches.call hnext).wait_set
      | _ => rfl
    refine ⟨⟨s.sets.goto t (some call.first), Function.update s.waits t (some { r with pc })⟩, ?_,
      fun u hu ↦ by simp [hu], hless _ (fun u hu ↦ by simp [hu]) ?_⟩
    · simp [step, hcall, hr, hnext, lift, WaitSets.step, hfits, setWait]
    · simpa using RmwWait.left_nextCall hnext

/-- Everybody comes to an end or sleeps. -/
theorem Reached.exists_settled {conditions : RmwCondition → Condition} {A : Finset θ}
    {s : RmwWaits θ ω} (h : Reached conditions s) (hA : ∀ t, s.waits t ≠ none → t ∈ A) :
    ∃ (ts : List θ) (s' : RmwWaits θ ω), run step s (ts.map .next) = some s' ∧
      (∀ t, ¬ s'.sets.Awake t) ∧ ∀ t, s'.sets.calls t = none → s'.waits t = none := by
  induction hn : s.toGo A using Nat.strong_induction_on generalizing s with
  | h n ih =>
    obtain ⟨B, hB⟩ := h.exists_callers.2
    obtain ⟨as, hok, has⟩ := id h
    obtain ⟨sets, ⟨ts, hts⟩, hover⟩ := (sets_run hok has).1.exists_settled hB
    have hrun := run_lift hts
    have h' := h.next hrun
    by_cases hidle : ∃ t r, s.waits t = some r ∧ sets.calls t = none
    · -- a call of a wait set has returned to `__rmw_wait`, which goes on
      obtain ⟨t, r, hr, hcall⟩ := hidle
      obtain ⟨as', hok', has'⟩ := id h'
      obtain ⟨s'', hs'', hothers, hless⟩ := (sets_run hok' has').2.2.exists_next hr hcall
        (hA t (by simp [hr]))
      have hone : run step ({ s with sets } : RmwWaits θ ω) ([t].map .next) = some s'' := by
        simp [run_cons, hs'']
      have hA'' : ∀ u, s''.waits u ≠ none → u ∈ A := by
        intro u hu
        by_cases hut : u = t
        · rw [hut]
          exact hA t (by simp [hr])
        · exact hA u (by rwa [← hothers u hut])
      obtain ⟨us, s', hus, hsettled⟩ := ih _ (hn ▸ hless) (h'.next hone) hA'' rfl
      refine ⟨ts ++ [t] ++ us, s', ?_, hsettled⟩
      rw [List.map_append, List.map_append, run_append, run_append, hrun, Option.bind_some, hone]
      exact hus
    · push Not at hidle
      refine ⟨ts, _, hrun, hover, fun t hcall ↦ ?_⟩
      by_contra hwait
      obtain ⟨r, hr⟩ := Option.ne_none_iff_exists'.mp hwait
      exact hidle t r hr hcall

/-- From every state that calls of `__rmw_wait` lead to, each on a wait set of its own, the threads
can go on until every call has returned, but those that sleep with none of the conditions of their
entities triggered. -/
theorem rmwWait_settle {conditions : RmwCondition → Condition} {as : List (RmwWaitsAction θ ω)}
    {s : RmwWaits θ ω} (hok : AllSteps step WaitsAlone { sets := { conditions } } as)
    (hs : run step { sets := { conditions } } as = some s) :
    ∃ (ts : List θ) (s' : RmwWaits θ ω), run step s (ts.map .next) = some s' ∧
      ∀ t, s'.waits t = none ∧ s'.sets.calls t = none ∨ ∃ r timed, s'.waits t = some r ∧
        s'.sets.calls t = some (.blocked r.wait_set timed) ∧
        (s'.sets.wait_sets r.wait_set).asleep = some t ∧
        ∀ c ∈ r.entities.attachedConditions, (s'.sets.conditions c).getTriggerValue = false := by
  have h : Reached conditions s := ⟨as, hok, hs⟩
  obtain ⟨A, hA⟩ := h.exists_callers.1
  obtain ⟨ts, s', hts, hover, hreturned⟩ := h.exists_settled hA
  obtain ⟨as', hok', has'⟩ := h.next hts
  obtain ⟨horderly, -, howned⟩ := sets_run hok' has'
  refine ⟨ts, s', hts, fun t ↦ ?_⟩
  by_cases hcall : s'.sets.calls t = none
  · exact .inl ⟨hreturned t hcall, hcall⟩
  have hsleep : s'.sets.Asleep t := by
    by_contra hawake
    exact hover t ⟨hcall, hawake⟩
  obtain ⟨w, timed, hblocked, hasleep⟩ := hsleep
  obtain ⟨r, hr, rfl⟩ := howned.uses hblocked rfl
  have hattaches := howned.attaches t r hr
  rw [hblocked] at hattaches
  refine .inr ⟨r, timed, hr, hblocked, hasleep, fun c hc ↦ ?_⟩
  have hentry := (hattaches.mem_of_wait rfl c).mpr hc
  by_contra htrigger
  obtain ⟨u, pc, hu, howes⟩ := horderly.heard r.wait_set c ⟨hentry, .inl (by simp [hasleep])⟩
    (by simpa using htrigger)
  exact hover u (WaitSets.Owes.awake hu howes)

/-- `rmwWait_settle` where the guard condition has just been triggered. -/
theorem rmwWait_settle_guardRun : ∃ s, run step guardInit guardRun = some s ∧
    ∃ (ts : List Bool) (s' : RmwWaits Bool Unit), run step s (ts.map .next) = some s' ∧
      ∀ t, s'.waits t = none ∧ s'.sets.calls t = none ∨ ∃ r timed, s'.waits t = some r ∧
        s'.sets.calls t = some (.blocked r.wait_set timed) ∧
        (s'.sets.wait_sets r.wait_set).asleep = some t ∧
        ∀ c ∈ r.entities.attachedConditions, (s'.sets.conditions c).getTriggerValue = false :=
  ⟨_, rfl, rmwWait_settle waitsAlone_guardRun rfl⟩

end RmwWaits

end HzjDds.Rmw
