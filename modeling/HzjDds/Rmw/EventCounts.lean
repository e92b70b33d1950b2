import HzjDds.Rmw.EventLocks
import HzjDds.Transition.Ledger

/-!
# What becomes of the changes that a reader counts

Library `Rmw`. Source: `custom_subscriber_info.cpp:125–415`. Each change that the reader of a
subscription counts is reported by `take_event`, told to a new callback or still pending, as long as
the mask of the reader stays; the places where the code may drop one, and when it does, are the cases
of `dropped`.
-/

namespace HzjDds.Rmw

open HzjDds.Transition

universe u

namespace RMWSubscriptionEvent

variable {θ : Type u}

/-! ## The ledger of an event -/

/-- Change of a counter that a call has taken over. -/
def inFlight (e : RmwEventType) (c : Counter) : EventPc → BitVec 32
  | .lockEvent o (some status) | .update o (some status) =>
    if o.event_type = e then status.change c else 0
  | .relock e' _ current | .adopt e' _ current => if e' = e then current.change c else 0
  | _ => 0

/-- Change of a counter that has been counted and neither taken nor told. -/
def pending [Fintype θ] (e : RmwEventType) (c : Counter) (s : RMWSubscriptionEvent θ) : BitVec 32 :=
  (s.statuses e).change c + (s.event_statuses e).change c +
    ∑ t, (s.calls t).elim 0 (inFlight e c)

/-- Change of a counter in what a step gives out for an event. -/
def changeOf (e : RmwEventType) (c : Counter) (out : Option (RmwEventType × EventStatus)) :
    BitVec 32 :=
  out.elim 0 fun out ↦ if out.1 = e then out.2.change c else 0

/-- Change that a step counts. -/
def counted (e : RmwEventType) (c : Counter) (s : RMWSubscriptionEvent θ) : EventPc → BitVec 32
  | .record o => if o.event_type = e then o.counted (s.statuses e) c else 0
  | _ => 0

/-- Change that a step drops: one that `on_subscription_matched` does not pass on, and one that is
queried while the flag is set, or overwritten. A match told to a new callback is not taken away
before the query, and dropped with all that has come up to then. -/
def dropped (e : RmwEventType) (c : Counter) (s : RMWSubscriptionEvent θ) : EventPc → BitVec 32
  | .get o =>
    if o.event_type = e ∧ e = .subscription_matched ∧ (s.statuses e).change .current ≠ 1 ∧
      (s.statuses e).change .current ≠ -1 then (s.statuses e).change c else 0
  | .check e' use => -changeOf e c (s.told (.check e' use))
  | .adopt e' use current =>
    if e' = e then
      if e = .subscription_matched then
        if use = .take then if s.changed e then 0 else (s.event_statuses e).change c
        else (s.event_statuses e).change c + current.change c
      else if s.changed e then current.change c else (s.event_statuses e).change c
    else 0
  | _ => 0

/-- An amount of the statement that a thread executes. -/
def ofNext (amount : RMWSubscriptionEvent θ → EventPc → BitVec 32) (s : RMWSubscriptionEvent θ) :
    EventAction θ → BitVec 32
  | .call _ _ => 0
  | .next t => (s.calls t).elim 0 (amount s)

variable [DecidableEq θ] [Fintype θ] {s s' : RMWSubscriptionEvent θ} {t : θ} {pc : EventPc}
  {e : RmwEventType} {c : Counter}

private theorem pending_goto (s : RMWSubscriptionEvent θ) (t : θ) (after : Option EventPc) :
    (s.goto t after).pending e c =
      s.pending e c + after.elim 0 (inFlight e c) - (s.calls t).elim 0 (inFlight e c) := by
  have hsum := sum_update (fun call : Option EventPc ↦ call.elim 0 (inFlight e c)) s.calls t after
  simp only [pending, goto]
  rw [eq_sub_iff_add_eq, add_assoc, hsum]
  abel

private theorem pending_release (s : RMWSubscriptionEvent θ) (t : θ) (m : EventMutex)
    (after : Option EventPc) : (s.release t m after).pending e c =
      s.pending e c + after.elim 0 (inFlight e c) - (s.calls t).elim 0 (inFlight e c) :=
  pending_goto (s.setMutex m none) t after

omit [DecidableEq θ] in
/-- What the reader has counted is pending. -/
theorem pending_setStatus (s : RMWSubscriptionEvent θ) (e' : RmwEventType) (status : EventStatus) :
    (s.setStatus e' status).pending e c =
      s.pending e c + if e' = e then status.change c - (s.statuses e).change c else 0 := by
  simp only [pending, setStatus]
  rcases eq_or_ne e' e with rfl | he
  · rw [Function.update_self, if_pos rfl]
    abel
  · rw [Function.update_of_ne he.symm, if_neg he, add_zero]

omit [DecidableEq θ] in
private theorem pending_setEventStatus (s : RMWSubscriptionEvent θ) (e' : RmwEventType)
    (status : EventStatus) : (s.setEventStatus e' status).pending e c =
      s.pending e c + if e' = e then status.change c - (s.event_statuses e).change c else 0 := by
  simp only [pending, setEventStatus]
  rcases eq_or_ne e' e with rfl | he
  · rw [Function.update_self, if_pos rfl]
    abel
  · rw [Function.update_of_ne he.symm, if_neg he, add_zero]

omit [DecidableEq θ] in
@[simp] theorem pending_setChanged (s : RMWSubscriptionEvent θ) (e' : RmwEventType)
    (changed : Bool) : (s.setChanged e' changed).pending e c = s.pending e c := rfl

omit [DecidableEq θ] in
@[simp] theorem pending_setGuard (s : RMWSubscriptionEvent θ) (e' : RmwEventType)
    (trigger_value : Bool) : (s.setGuard e' trigger_value).pending e c = s.pending e c := rfl

omit [DecidableEq θ] in
@[simp] theorem pending_setStatusMask (s : RMWSubscriptionEvent θ) (status_mask : StatusMask) :
    (s.setStatusMask status_mask).pending e c = s.pending e c := rfl

omit [DecidableEq θ] in
@[simp] theorem pending_setMutex (s : RMWSubscriptionEvent θ) (m : EventMutex)
    (holder : Option θ) : (s.setMutex m holder).pending e c = s.pending e c := rfl

/-- What a statement counts is taken, told or dropped in it, or pending after it. -/
theorem pending_next (hpc : s.calls t = some pc) (hs : s.next t pc = some s') :
    s'.pending e c + (changeOf e c (s.taken pc) + changeOf e c (s.told pc) + dropped e c s pc) =
      s.pending e c + counted e c s pc := by
  cases pc with
  | enter o =>
    cases hm : o.mutex with
    | none =>
      simp only [next, hm] at hs
      cases hs
      simp [pending_goto, hpc, inFlight, taken, told, changeOf, dropped, counted]
    | some m =>
      simp only [next, hm, Option.elim_some] at hs
      obtain ⟨-, rfl⟩ := acquire_eq_some.mp hs
      simp [pending_goto, hpc, inFlight, taken, told, changeOf, dropped, counted]
  | record o =>
    cases hs
    cases hb : o.brought with
    | none =>
      have hpending : ∀ status, ((s.setStatus o.event_type status).goto t
          (some (.dispatch o))).pending e c = s.pending e c +
            if o.event_type = e then status.change c - (s.statuses e).change c else 0 := by
        simp [pending_goto, pending_setStatus, hpc, inFlight]
      rw [if_neg (by simp), hpending]
      simp only [taken, told, changeOf, dropped, counted, Occurrence.counted, hb, Option.elim_none,
        add_zero]
      split
      · next he => rw [he]
      · rfl
    | some status =>
      have hpending : ((s.setStatus o.event_type (s.statuses o.event_type)).goto t
          (some (.lockEvent o (some status)))).pending e c = s.pending e c +
            if o.event_type = e then status.change c else 0 := by
        simp only [pending_goto, pending_setStatus, hpc, inFlight, setStatus_calls, Option.elim_some]
        split
        · next he => rw [he, sub_self, add_zero, sub_zero]
        · rw [add_zero, sub_zero]
      rw [Option.isSome_some, if_pos rfl, Occurrence.record_of_brought hb, hpending]
      simp only [taken, told, changeOf, dropped, counted, Occurrence.counted, hb, Option.elim_none,
        Option.elim_some, add_zero]
  | dispatch o =>
    cases hs
    have hafter : inFlight e c (if o.event_type.status ∈ s.status_mask then
        if o.event_type = .requested_deadline_missed then .lockEvent o none else .get o
        else .finish o) = 0 := by split_ifs <;> rfl
    rw [pending_goto, Option.elim_some, hafter]
    simp [hpc, inFlight, taken, told, changeOf, dropped, counted]
  | get o =>
    simp only [next] at hs
    split at hs
    · cases hs
      have hpending : ∀ after, ((s.setStatus o.event_type (s.statuses o.event_type).clear).goto t
          (some after)).pending e c = s.pending e c + inFlight e c after -
            if o.event_type = e then (s.statuses e).change c else 0 := by
        intro after
        simp only [pending_goto, pending_setStatus, hpc, inFlight, setStatus_calls,
          EventStatus.clear_change, Option.elim_some]
        split
        · abel
        · abel
      rw [hpending]
      simp only [taken, told, changeOf, dropped, counted, Option.elim_none, zero_add, add_zero]
      rcases eq_or_ne o.event_type e with rfl | he
      · -- what is not passed on is dropped
        simp only [true_and, if_true]
        split
        · simp [inFlight]
        · simp [inFlight]
      · simp only [he, false_and, if_false, sub_zero, add_zero]
        split <;> simp [inFlight, he]
    · contradiction
  | lockEvent o status =>
    obtain ⟨-, rfl⟩ := acquire_eq_some.mp hs
    cases status <;> simp [pending_goto, hpc, inFlight, taken, told, changeOf, dropped, counted]
  | update o status =>
    cases hs
    simp only [pending_release, pending_setStatus, pending_setGuard, pending_setChanged,
      pending_setEventStatus, setStatus_calls, setGuard_calls, setChanged_calls,
      setEventStatus_calls, setGuard_statuses, setChanged_statuses, setEventStatus_statuses, hpc]
    simp only [taken, told, changeOf, dropped, counted, Option.elim_none, Option.elim_some,
      add_zero]
    rcases eq_or_ne o.event_type e with rfl | he
    · cases status with
      | none =>
        simp [inFlight, EventStatus.accumulate]
      | some status =>
        simp [inFlight, EventStatus.accumulate]
    · cases status <;> simp [inFlight, he]
  | finish o =>
    cases hm : o.mutex <;> simp only [next, hm] at hs <;> cases hs <;>
      simp [pending_goto, pending_release, hpc, inFlight, taken, told, changeOf, dropped, counted]
  | getMask e' callback =>
    cases hs
    simp [pending_goto, hpc, inFlight, taken, told, changeOf, dropped, counted]
  | lock e' use | relock e' use current =>
    obtain ⟨-, rfl⟩ := acquire_eq_some.mp hs
    simp [pending_goto, hpc, inFlight, taken, told, changeOf, dropped, counted]
  | check e' use =>
    -- what a match is told of here is dropped as a negative amount
    have hquiet : s'.pending e c = s.pending e c := by
      rcases use with _ | ⟨_ | _, status_mask⟩
      · simp only [next] at hs
        split at hs <;> cases hs <;> simp [pending_goto, pending_release, hpc, inFlight]
      · cases hs
        simp [pending_release, hpc, inFlight]
      · simp only [next] at hs
        split at hs <;> cases hs
        · simp [pending_release, hpc, inFlight]
        · split <;> simp [pending_goto, hpc, inFlight]
    simp [hquiet, taken, changeOf, dropped, counted]
  | query e' use =>
    simp only [next] at hs
    split at hs
    · cases hs
      simp only [pending_goto, pending_setStatus, setStatus_calls, hpc]
      rcases eq_or_ne e' e with rfl | he
      · simp [inFlight, changeOf, taken, told, dropped, counted]
      · simp [inFlight, changeOf, taken, told, dropped, counted, he]
    · contradiction
  | adopt e' use current =>
    cases use with
    | take =>
      simp only [next] at hs
      split at hs <;> cases hs
      · next he =>
        subst he
        simp only [pending_release, pending_setEventStatus, pending_setChanged, pending_setGuard,
          setEventStatus_calls, setChanged_calls, setGuard_calls, hpc, taken, told, dropped, counted]
        rcases eq_or_ne .subscription_matched e with rfl | he
        · cases s.changed .subscription_matched with
          | true =>
            simp only [inFlight, changeOf, EventStatus.clear_change, if_true, Option.elim_none,
              Option.elim_some, add_zero]
            abel
          | false =>
            simp only [inFlight, changeOf, EventStatus.clear_change, Bool.false_eq_true, if_true,
              if_false, Option.elim_none, Option.elim_some, add_zero]
            abel
        · simp [inFlight, changeOf, he]
      · next he =>
        have htaken : s.taken (.adopt e' .take current) = none := by
          cases e' <;> first | rfl | contradiction
        simp only [pending_goto, pending_setEventStatus, pending_setChanged, setEventStatus_calls,
          setChanged_calls, hpc, htaken, told, dropped, counted]
        rcases eq_or_ne e' e with rfl | he'
        · cases s.changed e' with
          | true => simp [inFlight, changeOf, he]
          | false =>
            simp only [inFlight, changeOf, he, Bool.false_eq_true, if_true, if_false,
              Option.elim_none, Option.elim_some, add_zero, zero_add]
            abel
        · simp [inFlight, changeOf, he']
    | set callback status_mask =>
      have htaken : s.taken (.adopt e' (.set callback status_mask) current) = none := by
        cases e' <;> rfl
      simp only [next] at hs
      split at hs <;> cases hs <;>
        simp only [pending_goto, pending_setEventStatus, setEventStatus_calls, hpc, htaken, told,
          dropped, counted]
      · next he =>
        rcases eq_or_ne e' e with rfl | he'
        · simp [inFlight, changeOf, he]
        · simp [inFlight, changeOf, he']
      · next he =>
        rcases eq_or_ne e' e with rfl | he'
        · cases s.changed e' with
          | true => simp [inFlight, changeOf, he]
          | false =>
            simp only [inFlight, changeOf, he, Bool.false_eq_true, if_true, if_false,
              Option.elim_none, Option.elim_some, add_zero, zero_add]
            abel
        · simp [inFlight, changeOf, he']
  | report e' =>
    cases hs
    simp only [pending_release, pending_setEventStatus, pending_setGuard, setEventStatus_calls,
      setGuard_calls, hpc, taken, told, dropped, counted]
    rcases eq_or_ne e' e with rfl | he
    · simp [inFlight, changeOf]
    · simp [inFlight, changeOf, he]
  | tell e' status_mask =>
    cases hs
    simp only [pending_goto, pending_setEventStatus, setEventStatus_calls, hpc, taken, told, dropped,
      counted]
    rcases eq_or_ne e' e with rfl | he
    · cases (s.event_statuses e').isPositive e' <;> simp [inFlight, changeOf]
    · cases (s.event_statuses e').isPositive e' <;> simp [inFlight, changeOf, he]
  | install e' status_mask =>
    cases hs
    simp [pending_release, hpc, inFlight, taken, told, changeOf, dropped, counted]
  | setListener status_mask =>
    cases hs
    simp [pending_goto, hpc, inFlight, taken, told, changeOf, dropped, counted]

/-- Change of a counter that is taken in a step. -/
def takenIn (e : RmwEventType) (c : Counter) : RMWSubscriptionEvent θ → EventAction θ → BitVec 32 :=
  ofNext fun s pc ↦ changeOf e c (s.taken pc)

/-- Change of a counter that a new callback is told of in a step. -/
def toldIn (e : RmwEventType) (c : Counter) : RMWSubscriptionEvent θ → EventAction θ → BitVec 32 :=
  ofNext fun s pc ↦ changeOf e c (s.told pc)

/-- A new call takes nothing over; the next statement of a call settles what it counts. -/
theorem pending_step {a : EventAction θ} (hs : s.step a = some s') :
    s'.pending e c + (takenIn e c s a + toldIn e c s a + ofNext (dropped e c) s a) =
      s.pending e c + ofNext (counted e c) s a := by
  cases a with
  | call t call =>
    simp only [step] at hs
    split at hs
    · next hnone =>
      cases hs
      have hflight : inFlight e c call.first = 0 := by cases call <;> rfl
      simp [pending_goto, hnone, hflight, takenIn, toldIn, ofNext]
    · contradiction
  | next t =>
    obtain ⟨pc, hpc, hs⟩ := Option.bind_eq_some_iff.mp hs
    simp only [takenIn, toldIn, ofNext, hpc, Option.elim_some]
    exact pending_next hpc hs

/-- In every run, what the reader counts is taken, told or dropped, or is pending in the end. -/
theorem pending_run {as : List (EventAction θ)} (hs : run step s as = some s') :
    s'.pending e c + (total step (takenIn e c) s as + total step (toldIn e c) s as +
        total step (ofNext (dropped e c)) s as) =
      s.pending e c + total step (ofNext (counted e c)) s as := by
  rw [← total_add, ← total_add]
  exact ledger (fun s a s' ↦ pending_step) hs

end RMWSubscriptionEvent

end HzjDds.Rmw
