import HzjDds.Rmw.EventsKept

/-!
# The guard conditions of events

Library `Rmw`. Source: `custom_subscriber_info.cpp:125–274,493–596`. The guard condition of an event
is what `rmw_wait` waits for. It is set with the flag of the event, and taken back with it; so a
change that a reader has told the listener of is not left pending behind a guard that is not set.
-/

namespace HzjDds.Rmw

open HzjDds.Transition

universe u

namespace RMWSubscriptionEvent

variable {θ : Type u} [DecidableEq θ] {s s' : RMWSubscriptionEvent θ} {t : θ} {pc : EventPc}
  {e : RmwEventType}

omit [DecidableEq θ] in
/-- The guard condition of an event is set as long as its flag is; between the two, the flag is taken
back by a call that is about to take back the guard. -/
structure Guarded (s : RMWSubscriptionEvent θ) : Prop where
  locked : Locked s
  guarded : ∀ e, s.changed e = true → s.event_guard e = true
  changed : ∀ e, s.event_guard e = true → s.changed e = true ∨ ∃ t, s.calls t = some (.report e)
  reporting : ∀ e t, s.calls t = some (.report e) → s.changed e = false

/-- What a statement does to the flags and the guard conditions. -/
theorem guards_next (hs : s.next t pc = some s') :
    ∃ after : Option EventPc, s'.calls = Function.update s.calls t after ∧
      ((∀ e, after ≠ some (.report e)) ∧
          ((s'.changed = s.changed ∧ s'.event_guard = s.event_guard ∧ ∀ e, pc ≠ .report e) ∨
            (∃ e, pc.holds .on_new_event = true ∧ (∀ e, pc ≠ .report e) ∧ ∃ value,
              s'.changed = Function.update s.changed e value ∧
                s'.event_guard = Function.update s.event_guard e value) ∨
            ∃ e, pc = .report e ∧ s'.changed = s.changed ∧
              s'.event_guard = Function.update s.event_guard e false) ∨
        ∃ e, after = some (.report e) ∧ (∀ e, pc ≠ .report e) ∧
          s'.changed = Function.update s.changed e false ∧ s'.event_guard = s.event_guard) := by
  cases pc with
  | enter o =>
    cases hm : o.mutex with
    | none =>
      simp only [next, hm] at hs
      cases hs
      exact ⟨_, rfl, .inl ⟨by simp, .inl ⟨rfl, rfl, by simp⟩⟩⟩
    | some m =>
      simp only [next, hm, Option.elim_some] at hs
      obtain ⟨-, rfl⟩ := acquire_eq_some.mp hs
      exact ⟨_, rfl, .inl ⟨by simp, .inl ⟨rfl, rfl, by simp⟩⟩⟩
  | record o =>
    cases hs
    exact ⟨_, rfl, .inl ⟨fun e ↦ by split <;> simp, .inl ⟨rfl, rfl, by simp⟩⟩⟩
  | dispatch o =>
    cases hs
    exact ⟨_, rfl, .inl ⟨fun e ↦ by split_ifs <;> simp, .inl ⟨rfl, rfl, by simp⟩⟩⟩
  | get o =>
    simp only [next] at hs
    split at hs
    · cases hs
      exact ⟨_, rfl, .inl ⟨fun e ↦ by split_ifs <;> simp, .inl ⟨rfl, rfl, by simp⟩⟩⟩
    · contradiction
  | lockEvent o status | lock e use | relock e use current =>
    obtain ⟨-, rfl⟩ := acquire_eq_some.mp hs
    exact ⟨_, rfl, .inl ⟨by simp, .inl ⟨rfl, rfl, by simp⟩⟩⟩
  | update o status =>
    cases hs
    exact ⟨_, rfl, .inl ⟨by simp, .inr (.inl ⟨o.event_type, by simp [EventPc.holds], by simp, true,
      rfl, rfl⟩)⟩⟩
  | finish o =>
    cases hm : o.mutex <;> simp only [next, hm] at hs <;> cases hs <;>
      exact ⟨_, rfl, .inl ⟨by simp, .inl ⟨rfl, rfl, by simp⟩⟩⟩
  | check e use =>
    rcases use with _ | ⟨_ | _, status_mask⟩
    · simp only [next] at hs
      split at hs <;> cases hs
      · exact ⟨_, rfl, .inl ⟨by simp, .inl ⟨rfl, rfl, by simp⟩⟩⟩
      · exact ⟨_, rfl, .inr ⟨e, rfl, by simp, rfl, rfl⟩⟩
    · cases hs
      exact ⟨_, rfl, .inl ⟨by simp, .inl ⟨rfl, rfl, by simp⟩⟩⟩
    · simp only [next] at hs
      split at hs <;> cases hs
      · exact ⟨_, rfl, .inl ⟨by simp, .inl ⟨rfl, rfl, by simp⟩⟩⟩
      · exact ⟨_, rfl, .inl ⟨fun e ↦ by split <;> simp, .inl ⟨rfl, rfl, by simp⟩⟩⟩
  | query e use =>
    simp only [next] at hs
    split at hs
    · cases hs
      exact ⟨_, rfl, .inl ⟨by simp, .inl ⟨rfl, rfl, by simp⟩⟩⟩
    · contradiction
  | adopt e use current =>
    cases use with
    | take =>
      simp only [next] at hs
      split at hs <;> cases hs
      · exact ⟨_, rfl, .inl ⟨by simp, .inr (.inl ⟨e, rfl, by simp, false, rfl, rfl⟩)⟩⟩
      · exact ⟨_, rfl, .inr ⟨e, rfl, by simp, rfl, rfl⟩⟩
    | set callback status_mask =>
      simp only [next] at hs
      split at hs <;> cases hs <;>
        exact ⟨_, rfl, .inl ⟨by simp, .inl ⟨rfl, rfl, by simp⟩⟩⟩
  | report e =>
    cases hs
    exact ⟨_, rfl, .inl ⟨by simp, .inr (.inr ⟨e, rfl, rfl, rfl⟩)⟩⟩
  | _ =>
    cases hs
    exact ⟨_, rfl, .inl ⟨by simp, .inl ⟨rfl, rfl, by simp⟩⟩⟩

/-- A statement keeps the guard conditions with the flags. -/
theorem Guarded.next (h : Guarded s) (hpc : s.calls t = some pc) (hs : s.next t pc = some s') :
    Guarded s' := by
  have hlocked := h.locked.next hpc hs
  obtain ⟨after, hcalls, hcases⟩ := guards_next hs
  have hothers : (∀ e, pc ≠ .report e) → ∀ e u, s.calls u = some (.report e) →
      s'.calls u = some (.report e) := by
    intro hreport e u hu
    rw [hcalls, Function.update_of_ne, hu]
    rintro rfl
    exact hreport e (Option.some.inj (hpc.symm.trans hu))
  have hback : (∀ e, after ≠ some (.report e)) → ∀ e u, s'.calls u = some (.report e) →
      u ≠ t ∧ s.calls u = some (.report e) := by
    intro hafter e u hu
    rw [hcalls, Function.update_apply] at hu
    split at hu
    · exact absurd hu (hafter e)
    · next hut => exact ⟨hut, hu⟩
  rcases hcases with ⟨hafter, ⟨hchanged, hguard, hreport⟩ |
    ⟨e, hholds, hreport, value, hchanged, hguard⟩ | ⟨e, rfl, hchanged, hguard⟩⟩ |
    ⟨e, rfl, hreport, hchanged, hguard⟩
  · constructor
    case locked => exact hlocked
    case guarded => exact hguard ▸ hchanged ▸ h.guarded
    case changed =>
      intro e he
      rw [hguard] at he
      rw [hchanged]
      exact (h.changed e he).imp_right (.imp (hothers hreport e))
    case reporting => exact fun e u hu ↦ hchanged ▸ h.reporting e u (hback hafter e u hu).2
  · constructor
    case locked => exact hlocked
    case guarded =>
      intro e' he'
      rw [hchanged, Function.update_apply] at he'
      rw [hguard, Function.update_apply]
      split at he'
      · next heq => rwa [if_pos heq]
      · next heq =>
        rw [if_neg heq]
        exact h.guarded e' he'
    case changed =>
      intro e' he'
      rw [hguard, Function.update_apply] at he'
      rw [hchanged, Function.update_apply]
      split at he'
      · next heq => exact .inl (by rwa [if_pos heq])
      · next heq =>
        rw [if_neg heq]
        exact (h.changed e' he').imp_right (.imp (hothers hreport e'))
    case reporting =>
      -- the flag changes under the mutex that a call has while it reports
      intro e' u hu
      obtain ⟨hut, hu⟩ := hback hafter e' u hu
      exact absurd (h.locked.eq_of_holds hpc hu hholds rfl).1 hut
  · constructor
    case locked => exact hlocked
    case guarded =>
      intro e' he'
      rw [hchanged] at he'
      rw [hguard, Function.update_of_ne]
      · exact h.guarded e' he'
      · rintro rfl
        rw [h.reporting e' t hpc] at he'
        cases he'
    case changed =>
      intro e' he'
      rw [hguard, Function.update_apply] at he'
      split at he'
      · cases he'
      · next heq =>
        rw [hchanged]
        refine (h.changed e' he').imp_right (.imp fun u hu ↦ ?_)
        rw [hcalls, Function.update_of_ne, hu]
        rintro rfl
        exact heq (by cases hpc.symm.trans hu; rfl)
    case reporting => exact fun e' u hu ↦ hchanged ▸ h.reporting e' u (hback hafter e' u hu).2
  · constructor
    case locked => exact hlocked
    case guarded =>
      intro e' he'
      rw [hchanged, Function.update_apply] at he'
      rw [hguard]
      split at he'
      · cases he'
      · exact h.guarded e' he'
    case changed =>
      intro e' he'
      rw [hguard] at he'
      rw [hchanged, Function.update_apply]
      split
      · next heq => exact .inr ⟨t, by rw [hcalls, Function.update_self, heq]⟩
      · exact (h.changed e' he').imp_right (.imp (hothers hreport e'))
    case reporting =>
      intro e' u hu
      rw [hchanged, Function.update_apply]
      split
      · rfl
      · next heq =>
        rw [hcalls, Function.update_apply] at hu
        split at hu
        · exact absurd (by cases hu; rfl) heq
        · exact h.reporting e' u hu

/-- The guard conditions stay with the flags after every step. -/
theorem guarded_step (s : RMWSubscriptionEvent θ) (a : EventAction θ) (s' : RMWSubscriptionEvent θ)
    (h : Guarded s) (hs : s.step a = some s') : Guarded s' := by
  cases a with
  | call t call =>
    have hlocked := locked_step s (.call t call) s' h.locked hs
    simp only [step] at hs
    split at hs
    · next hnone =>
      cases hs
      constructor
      case locked => exact hlocked
      case guarded => exact h.guarded
      case changed =>
        intro e he
        refine (h.changed e he).imp_right ?_
        rintro ⟨u, hu⟩
        refine ⟨u, ?_⟩
        rw [goto_calls, Function.update_of_ne (by rintro rfl; cases hnone.symm.trans hu), hu]
      case reporting =>
        intro e u hu
        rw [goto_calls, Function.update_apply] at hu
        split at hu
        · cases call <;> cases hu
        · exact h.reporting e u hu
    · contradiction
  | next t =>
    obtain ⟨pc, hpc, hs⟩ := Option.bind_eq_some_iff.mp hs
    exact h.next hpc hs

/-- No wake-up is lost: from a calm subscription on, where no call is in progress the guard condition
of an event is set exactly if its flag is, and it is set if a change of the event is pending whose
status has stayed in the mask. The status of inconsistent topics is not one of the reader. -/
theorem event_guard_of_pending [Fintype θ] {init : RMWSubscriptionEvent θ} (hcalm : Calm e init)
    (hguard : init.event_guard = init.changed)
    (hqos : e = .requested_qos_incompatible → e.status ∉ init.status_mask)
    {as : List (EventAction θ)} (hsteady : AllSteps step (fun s a ↦ s.steady e a = true) init as)
    (hs : run step init as = some s) (hcalls : s.calls = fun _ ↦ none) :
    s.event_guard = s.changed ∧
      (e.status ∈ s.status_mask → e ≠ .subscription_incompatible_type →
        ∀ c ∈ e.counters, s.pending e c ≠ 0 → s.event_guard e = true) := by
  have hinit : Guarded init := by
    constructor
    case locked => exact hcalm.kept.locked
    case guarded => simp [hguard]
    case changed => exact fun e he ↦ .inl (by rwa [← hguard])
    case reporting => simp [hcalm.calls]
  have hreach : Reachable step init s := ⟨as, hs⟩
  have hguarded : Guarded s := hreach.invariant hinit guarded_step
  have hkept : Kept e (e.status ∈ init.status_mask) s :=
    hsteady.allStates hcalm.kept (fun _ _ _ h hok hs ↦ h.step hqos hok hs) (fun _ ↦ id)
      as s List.prefix_rfl hs
  constructor
  · funext e'
    rw [Bool.eq_iff_iff]
    refine ⟨fun he' ↦ ?_, hguarded.guarded e'⟩
    exact (hguarded.changed e' he').resolve_right (by simp [hcalls])
  · intro hmask he c hc hpending
    refine hguarded.guarded e ?_
    by_contra hchanged
    have hevents : Unchanged e (s.event_statuses e) :=
      (hkept.flag (by simpa using hchanged)).resolve_right (by simp [hcalls])
    have hstatuses : Unchanged e (s.statuses e) :=
      (hkept.counting (hkept.mask.mp hmask) he).resolve_right (by simp [hcalls])
    exact hpending (by simp [pending, hcalls, hevents c hc, hstatuses c hc])

/-- The listener is told of two lost samples. -/
def toldRun : List (EventAction Bool) :=
  .call false (.occur (.sample_lost 2)) :: List.replicate 7 (.next false)

/-- `event_guard_of_pending` where two samples are pending. -/
theorem event_guard_of_pending_toldRun : ∃ s, run step lostInit toldRun = some s ∧
    s.pending .message_lost .total ≠ 0 ∧ s.event_guard = s.changed ∧
      (RmwEventType.message_lost.status ∈ s.status_mask →
        RmwEventType.message_lost ≠ .subscription_incompatible_type →
          ∀ c ∈ RmwEventType.message_lost.counters, s.pending .message_lost c ≠ 0 →
            s.event_guard .message_lost = true) := by
  obtain ⟨s, hs, hpending, hcalls⟩ : ∃ s, run step lostInit toldRun = some s ∧
      s.pending .message_lost .total ≠ 0 ∧ s.calls = fun _ ↦ none :=
    ⟨_, rfl, by decide, by funext t; cases t <;> rfl⟩
  exact ⟨s, hs, hpending, event_guard_of_pending calm_lostInit rfl (by decide) (by decide) hs hcalls⟩

end RMWSubscriptionEvent

end HzjDds.Rmw
